import ProcessNetwork.SieveRuns
import ProcessNetwork.Lib.Wheel

/-!
# `PrimeSieveSource`

The wheel is filled from a sieve for the first primes: what passes the sieve goes to the buffer, and the product of the
primes
found so far bounds the loop.  The rounds then give out the buffer, each time with a larger base value.
-/

namespace ProcessNetwork

open PrimeSieve (Stands firstPrimes bounded result verdict_firstPrimes count_of_many tryCandidate_spec exists_tryCandidate
  ends_of_small mem_firstPrimes)
open Wheel (coprimes)

structure PrimeSieveSource where
  whichRound : ℕ
  baseValue : ℕ
  cumprod : ℕ
  roundLength : ℕ
  buffer : ℕ → ℕ

namespace PrimeSieveSource

/-- The table `roundLengths` of the constructor. -/
def roundLengths : List ℕ := [1, 2, 8, 48, 480, 5760, 92160, 1658880]

/-- The variables of the constructor.  `primes` holds what was stored through the argument, which may be null. -/
structure Filling where
  primeSieve : PrimeSieve
  cumprod : ℕ
  buffer : ℕ → ℕ
  idx : ℕ
  primes : Option (List ℕ)

namespace Filling

/-- `buffer[idx++] = k`. -/
def put (b : Filling) (k : ℕ) : Filling := { b with buffer := Function.update b.buffer b.idx k, idx := u64 (b.idx + 1) }

/-- `if (primes) *primes++ = k`. -/
def report (b : Filling) (k : ℕ) : Filling := { b with primes := b.primes.map (· ++ [k]) }

/-- The body of the loop, with the result of `TryCandidate` and the sieve after it. -/
def store (b : Filling) (k : ℕ) (r : ℤ × PrimeSieve) : Filling :=
  if r.1 = 1 then ({ b with primeSieve := r.2, cumprod := u64 (b.cumprod * k) } : Filling).report k
  else if r.1 = -1 then ({ b with primeSieve := r.2 } : Filling).put k
  else { b with primeSieve := r.2 }

end Filling

/-- The loop of the constructor.  Each call of `TryCandidate` has `n` rounds. -/
def fill (numPrimes n : ℕ) : ℕ → ℕ → Filling → Option Filling
  | 0, _, _ => none
  | m + 1, k, b =>
    if k < b.cumprod ∨ b.primeSieve.numPrimes < numPrimes then
      (b.primeSieve.tryCandidate n k).bind fun r => fill numPrimes n m (u64 (k + 2)) (b.store k r)
    else some b

/-- The constructor, with `n` rounds for its loops, and its variables at the end.  `memory` is what `new` finds in the
buffer. -/
def create (n numPrimes : ℕ) (memory : ℕ → ℕ) (primes : Option (List ℕ)) : Option (PrimeSieveSource × Filling) :=
  if 0 < numPrimes ∧ numPrimes ≤ 8 then
    ((PrimeSieve.create numPrimes).tryCandidate n 2).bind fun r =>
      (fill numPrimes n n 3 (((⟨r.2, 2, memory, 0, primes⟩ : Filling).put 1).report 2)).map fun b =>
        (⟨0, 0, b.cumprod, roundLengths.getD (numPrimes - 1) 0, b.buffer⟩, b)
  else none

/-- The loops of `GetNextRound`. -/
def copy (n : ℕ) (f dest : ℕ → ℕ) (k : ℕ) : ℕ := if k < n then f k else dest k

/-- `GetNextRound`: the number of values and the array with them.  The first round is without the 1. -/
def getNextRound (s : PrimeSieveSource) (dest : ℕ → ℕ) : ℕ × (ℕ → ℕ) × PrimeSieveSource :=
  if s.whichRound = 0 then
    (u32 (sub64 s.roundLength 1), copy (sub64 s.roundLength 1) (fun k => s.buffer (k + 1)) dest,
      { s with whichRound := u64 (s.whichRound + 1) })
  else
    (u32 s.roundLength, copy s.roundLength (fun k => u64 (s.buffer k + u64 (s.baseValue + s.cumprod))) dest,
      { s with whichRound := u64 (s.whichRound + 1), baseValue := u64 (s.baseValue + s.cumprod) })

/-- The values of one round after the other, each in an array of its own. -/
def outputs (s : PrimeSieveSource) : List (ℕ → ℕ) → List ℕ
  | [] => []
  | dest :: dests =>
    (List.range (s.getNextRound dest).1).map (s.getNextRound dest).2.1 ++ outputs (s.getNextRound dest).2.2 dests

/-! ### The first primes -/

variable {numPrimes n m k j : ℕ} {b b' : Filling} {memory : ℕ → ℕ} {primes : Option (List ℕ)}

private theorem length_firstPrimes (k : ℕ) :
    (firstPrimes k).length = k := by rw [firstPrimes, List.length_map, List.length_range]

private theorem nodup_firstPrimes (k : ℕ) : (firstPrimes k).Nodup :=
  List.nodup_range.map (Nat.nth_injective Nat.infinite_setOfPred_prime)

/-- The product of the first primes. -/
noncomputable def product (k : ℕ) : ℕ := (firstPrimes k).prod

private theorem firstPrimes_eight : firstPrimes 8 = [2, 3, 5, 7, 11, 13, 17, 19] := by
  have hprefix (c k : ℕ) (l : List ℕ) (hc : c.Prime) (hk : Nat.count Nat.Prime c = k) (hl : firstPrimes k = l) :
      firstPrimes (k + 1) = l ++ [c] := by rw [PrimeSieve.firstPrimes_succ hc hk, hl]
  have h0 : firstPrimes 0 = [] := rfl
  have h1 := hprefix 2 0 [] (by norm_num) (by decide) h0
  have h2 := hprefix 3 1 _ (by norm_num) (by decide) h1
  have h3 := hprefix 5 2 _ (by norm_num) (by decide) h2
  have h4 := hprefix 7 3 _ (by norm_num) (by decide) h3
  have h5 := hprefix 11 4 _ (by norm_num) (by decide) h4
  have h6 := hprefix 13 5 _ (by norm_num) (by decide) h5
  have h7 := hprefix 17 6 _ (by norm_num) (by decide) h6
  exact hprefix 19 7 _ (by norm_num) (by decide) h7

private theorem firstPrimes_take (h : k ≤ m) : firstPrimes k = (firstPrimes m).take k := by
  unfold firstPrimes
  rw [← List.map_take, List.take_range, min_eq_left h]

/-- The table has the totients. -/
theorem roundLength_eq (h1 : 0 < k) (h8 : k ≤ 8) : roundLengths.getD (k - 1) 0 = (product k).totient := by
  rw [product, Wheel.totient_prod (fun p hp => (mem_firstPrimes.1 hp).1) (nodup_firstPrimes k), firstPrimes_take h8,
    firstPrimes_eight]
  interval_cases k <;> rfl

private theorem product_le (h8 : k ≤ 8) : product k ≤ 9699690 := by
  rw [product, firstPrimes_take h8, firstPrimes_eight]
  interval_cases k <;> decide

private theorem coprime_product : (product k).Coprime m ↔ ∀ i < k, ¬ Nat.nth Nat.Prime i ∣ m := by
  rw [product, Nat.coprime_list_prod_left_iff]
  unfold firstPrimes
  simp only [List.mem_map, List.mem_range]
  constructor
  · intro h i hi
    exact ((Nat.prime_nth_prime i).coprime_iff_not_dvd).1 (h _ ⟨i, hi, rfl⟩)
  · rintro h p ⟨i, hi, rfl⟩
    exact ((Nat.prime_nth_prime i).coprime_iff_not_dvd).2 (h i hi)

private theorem nth_dvd_product (h : j < k) : Nat.nth Nat.Prime j ∣ product k :=
  List.dvd_prod (List.mem_map_of_mem (List.mem_range.2 h))

private theorem product_pos (k : ℕ) : 0 < product k :=
  List.prod_pos fun _ hp => (mem_firstPrimes.1 hp).1.pos

private theorem two_dvd_product (h : 0 < k) : 2 ∣ product k := by
  have hdvd := nth_dvd_product h
  rwa [Nat.nth_prime_zero_eq_two] at hdvd

private theorem prod_firstPrimes_le (h : k ≤ m) : (firstPrimes k).prod ≤ product m := by
  refine Nat.le_of_dvd (product_pos m) ?_
  rw [product, firstPrimes_take h]
  exact List.Sublist.prod_dvd_prod (List.take_sublist k (firstPrimes m))

/-- A candidate passes the full sieve exactly if it is coprime to the product. -/
theorem result_eq_neg_one (h1 : 0 < numPrimes) (hk : 2 ≤ k) : result numPrimes k = -1 ↔ (product numPrimes).Coprime k := by
  rw [coprime_product]
  unfold result
  split_ifs with hfew hprime hdvd
  · have hle := hfew.resolve_left h1.ne'
    constructor
    · intro h
      cases h
    · intro h
      have hcount := PrimeSieve.count_of_few hfew h1.ne'
      exact absurd (Nat.nth_count hprime).dvd (h _ hcount)
  · have hcount := PrimeSieve.count_of_few hfew h1.ne'
    obtain ⟨i, hi, hdvd⟩ := (PrimeSieve.exists_dvd_iff hk).2 hprime
    constructor
    · intro h
      cases h
    · intro h
      exact absurd hdvd (h i (hi.trans hcount))
  · obtain ⟨i, hi, hdvd⟩ := hdvd
    constructor
    · intro h
      cases h
    · intro h
      exact absurd hdvd (h i hi)
  · refine ⟨fun _ i hi h => hdvd ⟨i, hi, h⟩, fun _ => rfl⟩

/-! ### The constructor -/

/-- The variables of the constructor before the candidate `k`. -/
structure Before (numPrimes k : ℕ) (memory : ℕ → ℕ) (primes : Option (List ℕ)) (b : Filling) : Prop where
  odd : k % 2 = 1
  three : 3 ≤ k
  le : k ≤ product numPrimes + 1
  maxNumPrimes : b.primeSieve.maxNumPrimes = numPrimes
  stands : Stands b.primeSieve (firstPrimes (bounded numPrimes (Nat.count Nat.Prime k))) (k - 1)
  cumprod : b.cumprod = (firstPrimes (bounded numPrimes (Nat.count Nat.Prime k))).prod
  primes : b.primes = primes.map (· ++ firstPrimes (bounded numPrimes (Nat.count Nat.Prime k)))
  buffer : (List.range b.idx).map b.buffer = coprimes (product numPrimes) 0 k
  rest : ∀ i, b.idx ≤ i → b.buffer i = memory i

private theorem Before.idx (h : Before numPrimes k memory primes b) : b.idx = (coprimes (product numPrimes) 0 k).length := by
  rw [← h.buffer, List.length_map, List.length_range]

private theorem bounded_eq_of_le (h1 : 0 < numPrimes) (h : numPrimes ≤ m) : bounded numPrimes m = numPrimes := by
  rw [bounded, if_neg h1.ne', min_eq_left h]

/-- The loop goes on up to the product of all the primes. -/
theorem Before.goesOn_iff (h : Before numPrimes k memory primes b) (h1 : 0 < numPrimes) :
    k < b.cumprod ∨ b.primeSieve.numPrimes < numPrimes ↔ k < product numPrimes := by
  have hlength : b.primeSieve.numPrimes = bounded numPrimes (Nat.count Nat.Prime k) := by
    rw [PrimeSieve.numPrimes, PrimeSieve.length_eq h.stands, length_firstPrimes]
  have hmin : bounded numPrimes (Nat.count Nat.Prime k) = min numPrimes (Nat.count Nat.Prime k) := if_neg h1.ne'
  rw [h.cumprod, hlength, hmin]
  by_cases hfull : numPrimes ≤ Nat.count Nat.Prime k
  · rw [min_eq_left hfull, ← product]
    simp
  · have hfew : ¬ product numPrimes < k := by
      intro hlt
      have hpos : 0 < product numPrimes := product_pos numPrimes
      have hle := Nat.le_of_dvd hpos (nth_dvd_product (Nat.sub_lt h1 one_pos))
      exact hfull (count_of_many (hle.trans_lt hlt))
    have hne : product numPrimes ≠ k := by
      intro heq
      have hdvd := two_dvd_product h1
      have hodd := h.odd
      omega
    rw [min_eq_right (not_le.1 hfull).le]
    exact ⟨fun _ => by omega, fun _ => .inr (not_le.1 hfull)⟩

private theorem map_put (b : Filling) (hidx : b.idx + 1 < 2 ^ 64) :
    (List.range (b.put k).idx).map (b.put k).buffer = (List.range b.idx).map b.buffer ++ [k] := by
  have hlast : (b.put k).idx = b.idx + 1 := u64_of_lt hidx
  rw [hlast]
  exact PrimeSieve.Outputs.map_update

private theorem coprimes_add_two (h1 : 0 < numPrimes) (hodd : k % 2 = 1) :
    coprimes (product numPrimes) 0 (k + 2) =
      coprimes (product numPrimes) 0 k ++ if (product numPrimes).Coprime k then [k] else [] := by
  have heven : ¬ (product numPrimes).Coprime (k + 1) :=
    Nat.not_coprime_of_dvd_of_dvd one_lt_two (two_dvd_product h1) (by omega)
  rw [Wheel.coprimes_append, zero_add, Wheel.coprimes_append _ k 1 1, Wheel.coprimes_one, Wheel.coprimes_one, if_neg heven,
    List.append_nil]

/-- No prime is between an odd number and the next one. -/
theorem count_add_two (h3 : 3 ≤ k) (hodd : k % 2 = 1) : Nat.count Nat.Prime (k + 2) = Nat.count Nat.Prime (k + 1) := by
  have hprime : ¬ (k + 1).Prime := by
    intro hp
    obtain h2 | h2 := hp.eq_two_or_odd
    · omega
    · omega
  rw [Nat.count_succ, if_neg hprime, add_zero]

/-- A step of the loop. -/
theorem Before.step (h : Before numPrimes k memory primes b) (h1 : 0 < numPrimes) (h8 : numPrimes ≤ 8)
    (hk : k < product numPrimes) :
    ∃ N, ∀ n, N ≤ n → ∃ r, b.primeSieve.tryCandidate n k = some r ∧
      Before numPrimes (k + 2) memory primes (b.store k r) := by
  have hsmall := product_le h8
  have h3 := h.three
  have hodd := h.odd
  have h5 : 5 * k < 2 ^ 64 := by omega
  obtain ⟨hverdict, hgrow⟩ := verdict_firstPrimes (M := numPrimes) (by omega : 2 ≤ k) h5
  have hends : ∀ p ∈ firstPrimes (bounded numPrimes (Nat.count Nat.Prime k)), PrimeSieve.Ends p k := by
    intro p hp
    obtain ⟨hprime, hcount⟩ := mem_firstPrimes.1 hp
    have hpk : p < k := Nat.lt_of_count_lt_count (hcount.trans_le (PrimeSieve.bounded_le _ _))
    exact ends_of_small hprime.pos hpk.le h5
  obtain ⟨N, hN⟩ := exists_tryCandidate h.stands (Nat.sub_le k 1) hends
  refine ⟨N, fun n hn => ?_⟩
  obtain ⟨⟨r, t⟩, ht⟩ := hN n hn
  obtain ⟨-, hr, hmax, hstands⟩ := tryCandidate_spec h.stands (Nat.sub_le k 1) ht
  refine ⟨(r, t), ht, ?_⟩
  rw [h.maxNumPrimes] at hr hmax hstands
  rw [hgrow, ← count_add_two h3 hodd] at hstands
  rw [hverdict] at hr
  have hle : k + 2 ≤ product numPrimes + 1 := by
    obtain ⟨q, hq⟩ := two_dvd_product h1
    omega
  have hcoprimes := coprimes_add_two h1 hodd
  have hneg := result_eq_neg_one h1 (by omega : 2 ≤ k)
  rw [← count_add_two h3 hodd, PrimeSieve.grow, hverdict] at hgrow
  have hstands' : Stands t (firstPrimes (bounded numPrimes (Nat.count Nat.Prime (k + 2)))) (k + 2 - 1) :=
    hstands.mono (by omega)
  rw [← hr] at hneg hgrow
  unfold Filling.store
  -- a prime is multiplied in, a number that passes is coprime to the product, and any other one is left out
  by_cases hone : r = 1
  · have hno : ¬ (product numPrimes).Coprime k := by
      rw [← hneg, hone]
      decide
    rw [if_pos hone] at hgrow ⊢
    rw [if_neg hno, List.append_nil] at hcoprimes
    have hprod : u64 (b.cumprod * k) = (firstPrimes (bounded numPrimes (Nat.count Nat.Prime (k + 2)))).prod := by
      have hbounded : bounded numPrimes (Nat.count Nat.Prime (k + 2)) ≤ numPrimes := by
        rw [bounded, if_neg h1.ne']
        exact min_le_left _ _
      have hlt := prod_firstPrimes_le hbounded
      rw [← hgrow, List.prod_append, List.prod_singleton] at hlt ⊢
      rw [h.cumprod, u64_of_lt (by omega)]
    refine ⟨by omega, by omega, hle, hmax, hstands', hprod, ?_, ?_, h.rest⟩
    · have hprimes : b.primes.map (· ++ [k]) =
          primes.map (· ++ (firstPrimes (bounded numPrimes (Nat.count Nat.Prime k)) ++ [k])) := by
        rw [h.primes, Option.map_map]
        exact congrArg (primes.map ·) (funext fun l => List.append_assoc _ _ _)
      rw [← hgrow]
      exact hprimes
    · rw [hcoprimes]
      exact h.buffer
  · rw [if_neg hone] at hgrow ⊢
    by_cases hpass : r = -1
    · rw [if_pos hpass]
      rw [if_pos (hneg.1 hpass)] at hcoprimes
      have hidx : b.idx + 1 < 2 ^ 64 := by
        have hlength := Wheel.length_coprimes_le (product numPrimes) 0 k
        rw [← h.idx] at hlength
        omega
      refine ⟨by omega, by omega, hle, hmax, hstands', ?_, ?_, ?_, ?_⟩
      · rw [← hgrow]
        exact h.cumprod
      · rw [← hgrow]
        exact h.primes
      · rw [hcoprimes, ← h.buffer]
        exact map_put { b with primeSieve := t } hidx
      · intro i hi
        have hlt : b.idx < i := by
          have hnext : b.idx + 1 ≤ i := (u64_of_lt hidx).ge.trans hi
          omega
        exact (Function.update_of_ne hlt.ne' _ _).trans (h.rest i hlt.le)
    · rw [if_neg hpass]
      rw [if_neg (fun hc => hpass (hneg.2 hc)), List.append_nil] at hcoprimes
      refine ⟨by omega, by omega, hle, hmax, hstands', ?_, ?_, ?_, h.rest⟩
      · rw [← hgrow]
        exact h.cumprod
      · rw [← hgrow]
        exact h.primes
      · rw [hcoprimes]
        exact h.buffer

/-- The loop ends at the product of all the primes. -/
theorem Before.exists_fill (h : Before numPrimes k memory primes b) (h1 : 0 < numPrimes) (h8 : numPrimes ≤ 8)
    (hj : k + 2 * j = product numPrimes + 1) :
    ∃ N b', Before numPrimes (product numPrimes + 1) memory primes b' ∧
      ∀ n, N ≤ n → ∀ m, j < m → fill numPrimes n m k b = some b' := by
  induction j generalizing k b with
  | zero =>
    obtain rfl : k = product numPrimes + 1 := by omega
    refine ⟨0, b, h, fun n _ m hm => ?_⟩
    obtain ⟨m, rfl⟩ := Nat.exists_eq_add_of_lt hm
    have hstop : ¬ (product numPrimes + 1 < b.cumprod ∨ b.primeSieve.numPrimes < numPrimes) := by
      rw [h.goesOn_iff h1]
      omega
    rw [zero_add, fill, if_neg hstop]
  | succ j ih =>
    have hk : k < product numPrimes := by
      have hodd := h.odd
      omega
    obtain ⟨N, hN⟩ := h.step h1 h8 hk
    obtain ⟨r, hr, hstep⟩ := hN N le_rfl
    obtain ⟨N', b', hb', hfill⟩ := ih hstep (by omega)
    refine ⟨max N N', b', hb', fun n hn m hm => ?_⟩
    obtain ⟨m, rfl⟩ := Nat.exists_eq_add_of_lt hm
    have hsmall := product_le h8
    rw [fill, if_pos ((h.goesOn_iff h1).2 hk), PrimeSieve.tryCandidate_of_le hr (le_trans (le_max_left N N') hn),
      Option.bind_some, u64_of_lt (by omega)]
    exact hfill n (le_trans (le_max_right N N') hn) _ (by omega)

private theorem two_le_product (h1 : 0 < numPrimes) :
    2 ≤ product numPrimes := Nat.le_of_dvd (product_pos _) (two_dvd_product h1)

/-- The variables before the loop. -/
theorem before_three (h1 : 0 < numPrimes) (memory : ℕ → ℕ) (primes : Option (List ℕ)) :
    Before numPrimes 3 memory primes
      (((⟨(PrimeSieve.create numPrimes).insert 2, 2, memory, 0, primes⟩ : Filling).put 1).report 2) := by
  have htwo := two_le_product h1
  have hcount : bounded numPrimes (Nat.count Nat.Prime 3) = 1 := by
    have hthree : Nat.count Nat.Prime 3 = 1 := by decide
    rw [hthree, bounded, if_neg h1.ne', min_eq_right h1]
  have hfirst : firstPrimes (bounded numPrimes (Nat.count Nat.Prime 3)) = [2] := by
    rw [hcount, firstPrimes_take (by omega : 1 ≤ 8), firstPrimes_eight]
    rfl
  have hcoprimes : coprimes (product numPrimes) 0 3 = [1] := by
    have hzero : ¬ (product numPrimes).Coprime 0 := by
      rw [Nat.coprime_zero_right]
      omega
    have heven : ¬ (product numPrimes).Coprime 2 :=
      Nat.not_coprime_of_dvd_of_dvd one_lt_two (two_dvd_product h1) dvd_rfl
    simp [coprimes, List.range'_succ, hzero, heven]
  refine ⟨rfl, le_rfl, by omega, rfl, ?_, ?_, ?_, ?_, ?_⟩
  · rw [hfirst]
    exact ((PrimeSieve.stands_create numPrimes).mono (Nat.zero_le 2)).insert
  · rw [hfirst]
    rfl
  · rw [hfirst]
    rfl
  · rw [hcoprimes]
    rfl
  · intro i hi
    have hpos : 0 < i := hi
    exact Function.update_of_ne hpos.ne' _ _

/-! ### The rounds -/

variable {s : PrimeSieveSource} {P : ℕ}

/-- The source has a wheel for `P`. -/
structure Wheeled (s : PrimeSieveSource) (P : ℕ) : Prop where
  cumprod : s.cumprod = P
  roundLength : s.roundLength < 2 ^ 32
  buffer : (List.range s.roundLength).map s.buffer = coprimes P 0 P

private theorem map_copy (n : ℕ) (f dest : ℕ → ℕ) : (List.range n).map (copy n f dest) = (List.range n).map f :=
  List.map_congr_left fun _ hk => if_pos (List.mem_range.1 hk)

/-- The values of the first round. -/
theorem Wheeled.first (h : Wheeled s P) (hP : 2 ≤ P) (hround : s.whichRound = 0) (dest : ℕ → ℕ) :
    (List.range (s.getNextRound dest).1).map (s.getNextRound dest).2.1 = coprimes P 2 (P - 2) := by
  have hperiod := h.buffer
  rw [Wheel.coprimes_period hP] at hperiod
  have hlt := h.roundLength
  cases hl : s.roundLength with
  | zero =>
    rw [hl] at hperiod
    cases hperiod
  | succ l =>
    have hsub : sub64 s.roundLength 1 = l := by
      rw [sub64_of_le (by omega) (by omega)]
      omega
    rw [getNextRound, if_pos hround, hsub, u32_of_lt (by omega), map_copy]
    rw [hl, List.range_succ_eq_map, List.map_cons, List.map_map] at hperiod
    exact (List.cons.inj hperiod).2

/-- The values of a later round. -/
theorem Wheeled.later (h : Wheeled s P) (hround : s.whichRound ≠ 0) (hbase : s.baseValue = j * P)
    (hwrap : (j + 1 + 1) * P ≤ 2 ^ 64) (dest : ℕ → ℕ) :
    (List.range (s.getNextRound dest).1).map (s.getNextRound dest).2.1 = coprimes P ((j + 1) * P) P := by
  rw [getNextRound, if_neg hround, u32_of_lt h.roundLength, map_copy]
  have hnext : ∀ x ∈ coprimes P 0 P, u64 (x + u64 (s.baseValue + s.cumprod)) = x + (j + 1) * P := by
    intro x hx
    have hlt := (List.mem_range'_1.1 (List.mem_of_mem_filter hx)).2
    rw [add_mul, one_mul] at hwrap
    rw [hbase, h.cumprod, ← Nat.succ_mul, Nat.succ_eq_add_one, u64_of_lt (n := (j + 1) * P) (by omega), u64_of_lt (by omega)]
  have hshift := Wheel.map_coprimes P 0 P (j + 1)
  rw [zero_add, ← List.map_congr_left hnext, ← h.buffer, List.map_map] at hshift
  exact hshift

private theorem Wheeled.next (h : Wheeled s P) (dest : ℕ → ℕ) : Wheeled (s.getNextRound dest).2.2 P := by
  unfold getNextRound
  split_ifs
  · exact ⟨h.cumprod, h.roundLength, h.buffer⟩
  · exact ⟨h.cumprod, h.roundLength, h.buffer⟩

/-- The rounds after the first one. -/
theorem Wheeled.outputs_later (h : Wheeled s P) (hP : 2 ≤ P) (hround : s.whichRound = j + 1) (hbase : s.baseValue = j * P)
    {dests : List (ℕ → ℕ)} (hwrap : (j + 1 + dests.length) * P ≤ 2 ^ 64) :
    s.outputs dests = coprimes P ((j + 1) * P) (dests.length * P) := by
  induction dests generalizing s j with
  | nil => rw [outputs, List.length_nil, zero_mul]; rfl
  | cons dest dests ih =>
    have hsum : (j + 1 + (dest :: dests).length) * P = (j + 1 + 1) * P + dests.length * P := by
      rw [List.length_cons]
      ring
    rw [hsum] at hwrap
    have hne : s.whichRound ≠ 0 := by omega
    have hlater := h.later hne hbase (by omega) dest
    have hj : (j + 1 + 1) * 2 ≤ (j + 1 + 1) * P := Nat.mul_le_mul_left _ hP
    have hmul : (j + 1 + 1) * P = (j + 1) * P + P := by ring
    have hstate : (s.getNextRound dest).2.2.whichRound = j + 1 + 1 ∧ (s.getNextRound dest).2.2.baseValue = (j + 1) * P := by
      rw [getNextRound, if_neg hne]
      dsimp only
      rw [hround, hbase, h.cumprod]
      refine ⟨u64_of_lt (by omega), ?_⟩
      rw [← Nat.succ_mul, Nat.succ_eq_add_one]
      exact u64_of_lt (by omega)
    rw [outputs, hlater, ih (h.next dest) hstate.1 hstate.2 (by rw [add_mul]; omega), List.length_cons, hmul,
      ← Wheel.coprimes_append, add_mul dests.length, one_mul, add_comm P]

/-- All rounds. -/
theorem Wheeled.outputs_eq (h : Wheeled s P) (hP : 2 ≤ P) (hround : s.whichRound = 0) (hbase : s.baseValue = 0)
    {dests : List (ℕ → ℕ)} (hwrap : dests.length * P ≤ 2 ^ 64) :
    s.outputs dests = coprimes P 2 (dests.length * P - 1) := by
  cases dests with
  | nil =>
    rw [outputs, List.length_nil, zero_mul]
    rfl
  | cons dest dests =>
    rw [List.length_cons] at hwrap ⊢
    have hstate : (s.getNextRound dest).2.2.whichRound = 0 + 1 ∧ (s.getNextRound dest).2.2.baseValue = 0 * P := by
      rw [getNextRound, if_pos hround]
      dsimp only
      rw [hround, hbase, zero_mul]
      exact ⟨rfl, rfl⟩
    have hwrap' : (0 + 1 + dests.length) * P ≤ 2 ^ 64 := by
      rw [zero_add, add_comm]
      exact hwrap
    have hlater := (h.next dest).outputs_later hP hstate.1 hstate.2 hwrap'
    have hsplit : (dests.length + 1) * P - 1 = P - 2 + dests.length * P + 1 := by
      rw [add_mul, one_mul]
      omega
    have hend : 2 + (P - 2 + dests.length * P) = (dests.length + 1) * P := by
      rw [add_mul, one_mul]
      omega
    have hlast : ¬ P.Coprime ((dests.length + 1) * P) :=
      Nat.not_coprime_of_dvd_of_dvd hP dvd_rfl (Nat.dvd_mul_left P _)
    rw [outputs, h.first hP hround dest, hlater, hsplit, Wheel.coprimes_append _ _ _ 1, hend, Wheel.coprimes_one,
      if_neg hlast, List.append_nil, Wheel.coprimes_append, zero_add, one_mul, Nat.add_sub_cancel' hP]

/-- The source is complete: the rounds one after the other are the numbers above 1 up to the end of the last one that
are coprime
to the product of the first primes.  The constructor returns, fills its buffer exactly, and reports these primes. -/
theorem create_complete (numPrimes : ℕ) (h1 : 1 ≤ numPrimes) (h8 : numPrimes ≤ 8) (memory : ℕ → ℕ)
    (primes : Option (List ℕ)) :
    ∃ N, ∀ n, N ≤ n → ∃ s b, create n numPrimes memory primes = some (s, b) ∧
      (b.idx ≤ s.roundLength ∧ ∀ i, s.roundLength ≤ i → b.buffer i = memory i) ∧
      b.primes = primes.map (· ++ firstPrimes numPrimes) ∧
      ∀ dests : List (ℕ → ℕ), dests.length * product numPrimes ≤ 2 ^ 64 →
        s.outputs dests =
          (List.range (dests.length * product numPrimes + 1)).filter fun x => 1 < x ∧ (product numPrimes).Coprime x := by
  have hP := two_le_product h1
  obtain ⟨q, hq⟩ := two_dvd_product h1
  obtain ⟨N, b, hb, hfill⟩ := (before_three h1 memory primes).exists_fill h1 h8 (j := q - 1) (by omega)
  have hlast : ¬ (product numPrimes).Coprime (product numPrimes) := Nat.not_coprime_of_dvd_of_dvd hP dvd_rfl dvd_rfl
  have hbuffer := hb.buffer
  rw [Wheel.coprimes_append, zero_add, Wheel.coprimes_one, if_neg hlast, List.append_nil] at hbuffer
  have hcount : bounded numPrimes (Nat.count Nat.Prime (product numPrimes + 1)) = numPrimes := by
    refine bounded_eq_of_le h1 (count_of_many (Nat.lt_succ_of_le ?_))
    exact Nat.le_of_dvd (product_pos _) (nth_dvd_product (Nat.sub_lt h1 one_pos))
  have hidx : b.idx = roundLengths.getD (numPrimes - 1) 0 := by
    rw [roundLength_eq h1 h8, ← Wheel.length_coprimes, ← hbuffer, List.length_map, List.length_range]
  have hsmall := product_le h8
  have hwheeled : Wheeled ⟨0, 0, b.cumprod, roundLengths.getD (numPrimes - 1) 0, b.buffer⟩ (product numPrimes) := by
    have hcumprod := hb.cumprod
    rw [hcount, ← product] at hcumprod
    have hlength := Wheel.length_coprimes_le (product numPrimes) 0 (product numPrimes)
    rw [← hbuffer, List.length_map, List.length_range] at hlength
    rw [← hidx]
    exact ⟨hcumprod, lt_of_le_of_lt hlength (by omega), hbuffer⟩
  refine ⟨max N q, fun n hn => ⟨⟨0, 0, b.cumprod, roundLengths.getD (numPrimes - 1) 0, b.buffer⟩, b, ?_, ⟨hidx.le, ?_⟩,
    ?_, ?_⟩⟩
  · have htwo : (PrimeSieve.create numPrimes).tryCandidate n 2 = some (1, (PrimeSieve.create numPrimes).insert 2) := rfl
    rw [create, if_pos ⟨h1, h8⟩, htwo, Option.bind_some, hfill n (le_trans (le_max_left N q) hn) n (by omega),
      Option.map_some]
  · intro i hi
    exact hb.rest i (hidx.le.trans hi)
  · have hprimes := hb.primes
    rwa [hcount] at hprimes
  · intro dests hwrap
    rw [hwheeled.outputs_eq hP rfl rfl hwrap, Wheel.filter_coprime]

/-- The wheel for 30. -/
theorem create_complete_three : ∃ N, ∀ n, N ≤ n → ∃ s b, create n 3 (fun _ => 0) (some []) = some (s, b) ∧
    s.outputs [fun _ => 0, fun _ => 0] =
      (List.range (2 * product 3 + 1)).filter fun x => 1 < x ∧ (product 3).Coprime x := by
  obtain ⟨N, hN⟩ := create_complete 3 (by decide) (by decide) (fun _ => 0) (some [])
  refine ⟨N, fun n hn => ?_⟩
  obtain ⟨s, b, hs, -, -, houtputs⟩ := hN n hn
  have hsmall := product_le (show 3 ≤ 8 by decide)
  exact ⟨s, b, hs, houtputs [fun _ => 0, fun _ => 0] (by dsimp only [List.length_cons, List.length_nil]; omega)⟩

end PrimeSieveSource

end ProcessNetwork
