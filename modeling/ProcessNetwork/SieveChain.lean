import ProcessNetwork.SieveRuns

/-!
# A chain of sieves

A candidate goes to the first sieve, and from a sieve that it passes to the next one; the last sieve has no bound. 
`blocks` cuts
the primes of one sieve without a bound into those of the chain.  A sieve of the chain sees only some candidates and is
behind
one that sees them all, which makes no difference to the candidates that it does see (`Stands.mono`); so each step of
the chain
is the step of the one sieve (`feed_spec`).

The values wrap here.  An odd prime has a multiple that is not below the candidate all the same (`ends_of_odd`), and
the entry for
2 is in the first sieve, so that the chain returns exactly if the one sieve does.
-/

namespace ProcessNetwork

namespace PrimeSieve

open PrimeSieveEntry (factor iterate_create factor_wheel FirstFrom)

variable {n m c c' p : ℕ} {s s' : PrimeSieve} {ss ss' : List PrimeSieve} {P cs caps : List ℕ}

/-- One candidate through the sieves. -/
def feed (n : ℕ) : List PrimeSieve → ℕ → Option (ℤ × List PrimeSieve)
  | [], _ => some (-1, [])
  | s :: ss, c => (tryCandidate n s c).bind fun r =>
    if r.1 = -1 then (feed n ss c).map fun x => (x.1, r.2 :: x.2) else some (r.1, r.2 :: ss)

/-- One candidate after the other. -/
def feedAll (n : ℕ) : List PrimeSieve → List ℕ → Option (List ℤ × List PrimeSieve)
  | ss, [] => some ([], ss)
  | ss, c :: cs => (feed n ss c).bind fun r => (feedAll n r.2 cs).map fun x => (r.1 :: x.1, x.2)

/-- The sieves with the bounds `caps` and one without a bound. -/
def chain (caps : List ℕ) : List PrimeSieve := caps.map create ++ [create 0]

/-- The consecutive blocks of at most so many elements, and the rest. -/
def blocks : List ℕ → List ℕ → List (List ℕ)
  | [], P => [P]
  | M :: caps, P => P.take M :: blocks caps (P.drop M)

/-- Each sieve stands at the candidate `c` with its block of the primes. -/
def ChainStands (c : ℕ) : List ℕ → List PrimeSieve → List ℕ → Prop
  | [], ss, P => ∃ s, ss = [s] ∧ s.maxNumPrimes = 0 ∧ Stands s P c
  | M :: caps, ss, P => ∃ s ss', ss = s :: ss' ∧ s.maxNumPrimes = M ∧ Stands s (P.take M) c ∧
    ChainStands c caps ss' (P.drop M)

private theorem ChainStands.mono (h : ChainStands c caps ss P) (hc : c ≤ c') : ChainStands c' caps ss P := by
  induction caps generalizing ss P with
  | nil =>
    obtain ⟨s, rfl, hmax, hstands⟩ := h
    exact ⟨s, rfl, hmax, hstands.mono hc⟩
  | cons M caps ih =>
    obtain ⟨s, ss', rfl, hmax, hstands, hrest⟩ := h
    exact ⟨s, ss', rfl, hmax, hstands.mono hc, ih hrest⟩

private theorem chainStands_chain (caps : List ℕ) : ChainStands 0 caps (chain caps) [] := by
  induction caps with
  | nil => exact ⟨create 0, rfl, rfl, stands_create 0⟩
  | cons M caps ih =>
    refine ⟨create M, chain caps, rfl, rfl, ?_, ?_⟩
    · rw [List.take_nil]
      exact stands_create M
    · rw [List.drop_nil]
      exact ih

/-! ### One step -/

theorem verdict_of_hits {M : ℕ} (h : ∃ p ∈ P, Hits p c) : verdict M P c = 0 := if_pos h

private theorem verdict_of_full {M : ℕ} (h : ¬ ∃ p ∈ P, Hits p c) (hM : M ≠ 0) (hP : M ≤ P.length) : verdict M P c = -1 := by
  rw [verdict, if_neg h, if_pos ⟨hM, hP⟩]

private theorem verdict_of_room {M : ℕ} (h : ¬ ∃ p ∈ P, Hits p c) (hP : M = 0 ∨ P.length < M) : verdict M P c = 1 := by
  rw [verdict, if_neg h, if_neg]
  rintro ⟨hM, hle⟩
  exact (hP.resolve_left hM).not_ge hle

private theorem verdict_zero_ne : verdict 0 P c ≠ -1 := by
  by_cases h : ∃ p ∈ P, Hits p c
  · rw [verdict_of_hits h]
    decide
  · rw [verdict_of_room h (.inl rfl)]
    decide

/-- What the primes of an earlier sieve do not stop is left to the others. -/
theorem verdict_drop {M : ℕ} (h : ¬ ∃ p ∈ P.take M, Hits p c) : verdict 0 (P.drop M) c = verdict 0 P c := by
  by_cases hhit : ∃ p ∈ P.drop M, Hits p c
  · rw [verdict_of_hits hhit, verdict_of_hits (hhit.imp fun p hp => ⟨List.mem_of_mem_drop hp.1, hp.2⟩)]
  · have hno : ¬ ∃ p ∈ P, Hits p c := by
      rintro ⟨p, hp, hpc⟩
      rw [← List.take_append_drop M P, List.mem_append] at hp
      exact hp.elim (fun hp => h ⟨p, hp, hpc⟩) fun hp => hhit ⟨p, hp, hpc⟩
    rw [verdict_of_room hhit (.inl rfl), verdict_of_room hno (.inl rfl)]

/-- The chain does what one sieve without a bound does, and the first sieve has seen the candidate. -/
theorem feed_spec {r : ℤ} (h : ChainStands c caps ss P) (hcaps : ∀ M ∈ caps, 1 ≤ M) (hc : c ≤ c')
    (hfeed : feed n ss c' = some (r, ss')) :
    (∀ p ∈ P.take (caps.headD P.length), Ends p c') ∧ r = verdict 0 P c' ∧ ChainStands c' caps ss' (grow 0 P c') := by
  induction caps generalizing ss ss' P r with
  | nil =>
    obtain ⟨s, rfl, hmax, hstands⟩ := h
    rw [feed, Option.bind_eq_some_iff] at hfeed
    obtain ⟨⟨r', t⟩, ht, hfeed⟩ := hfeed
    obtain ⟨hends, rfl, hmax', hstands'⟩ := tryCandidate_spec hstands hc ht
    rw [hmax] at hfeed hmax' hstands'
    rw [if_neg verdict_zero_ne] at hfeed
    obtain ⟨rfl, rfl⟩ := Prod.mk.inj (Option.some.inj hfeed)
    refine ⟨?_, rfl, t, rfl, hmax', hstands'⟩
    rw [List.headD_nil, List.take_length]
    exact hends
  | cons M caps ih =>
    obtain ⟨s, ss₁, rfl, hmax, hstands, hrest⟩ := h
    rw [feed, Option.bind_eq_some_iff] at hfeed
    obtain ⟨⟨r', t⟩, ht, hfeed⟩ := hfeed
    obtain ⟨hends, rfl, hmax', hstands'⟩ := tryCandidate_spec hstands hc ht
    rw [hmax] at hfeed hmax' hstands'
    dsimp only at hfeed
    have hM := hcaps M List.mem_cons_self
    refine ⟨hends, ?_⟩
    -- a multiple of a prime of the first sieve, else a number for the next sieve when this one is full, else a prime
    by_cases hhit : ∃ p ∈ P.take M, Hits p c'
    · have hhit' : ∃ p ∈ P, Hits p c' := hhit.imp fun p hp => ⟨List.mem_of_mem_take hp.1, hp.2⟩
      rw [verdict_of_hits hhit, if_neg (by decide)] at hfeed
      obtain ⟨rfl, rfl⟩ := Prod.mk.inj (Option.some.inj hfeed)
      rw [grow, verdict_of_hits hhit, if_neg (by decide)] at hstands'
      rw [grow, verdict_of_hits hhit', if_neg (by decide)]
      exact ⟨rfl, t, ss₁, rfl, hmax', hstands', hrest.mono hc⟩
    · by_cases hfull : M ≤ P.length
      · have hlength : M ≤ (P.take M).length := by rw [List.length_take, min_eq_left hfull]
        have hpass := verdict_of_full hhit (by omega) hlength
        rw [hpass, if_pos rfl, Option.map_eq_some_iff] at hfeed
        obtain ⟨⟨r₁, ss₂⟩, hnext, heq⟩ := hfeed
        obtain ⟨rfl, rfl⟩ := Prod.mk.inj heq
        -- the first sieve keeps its primes, and the rest of the chain goes on with the others
        obtain ⟨-, rfl, hrest'⟩ := ih hrest (fun M' hM' => hcaps M' (List.mem_cons_of_mem _ hM')) hnext
        rw [grow, hpass, if_neg (by decide)] at hstands'
        have hverdict : verdict 0 (P.drop M) c' = verdict 0 P c' := verdict_drop hhit
        have htake : (grow 0 P c').take M = P.take M := by
          unfold grow
          split_ifs
          · exact List.take_append_of_le_length hfull
          · rfl
        have hdrop : (grow 0 P c').drop M = grow 0 (P.drop M) c' := by
          unfold grow
          rw [hverdict]
          split_ifs
          · exact List.drop_append_of_le_length hfull
          · rfl
        refine ⟨hverdict, t, ss₂, rfl, hmax', ?_, ?_⟩
        · rw [htake]
          exact hstands'
        · rw [hdrop]
          exact hrest'
      · have hshort : P.length < M := not_le.1 hfull
        rw [List.take_of_length_le hshort.le] at hhit hstands' hfeed
        have haccept : verdict M P c' = 1 := verdict_of_room hhit (.inr hshort)
        rw [haccept, if_neg (by decide)] at hfeed
        obtain ⟨rfl, rfl⟩ := Prod.mk.inj (Option.some.inj hfeed)
        rw [grow, haccept, if_pos rfl] at hstands'
        have hone : verdict 0 P c' = 1 := verdict_of_room hhit (.inl rfl)
        rw [grow, hone, if_pos rfl]
        refine ⟨rfl, t, ss₁, rfl, hmax', ?_, ?_⟩
        · rw [List.take_of_length_le (by rw [List.length_append, List.length_singleton]; omega)]
          exact hstands'
        · rw [List.drop_of_length_le hshort.le] at hrest
          rw [List.drop_of_length_le (by rw [List.length_append, List.length_singleton]; omega)]
          exact hrest.mono hc

private theorem feed_of_le {x : ℤ × List PrimeSieve} (h : feed n ss c = some x) (hnm : n ≤ m) : feed m ss c = some x := by
  induction ss generalizing x with
  | nil => exact h
  | cons s ss ih =>
    rw [feed, Option.bind_eq_some_iff] at h
    obtain ⟨r, hr, h⟩ := h
    rw [feed, tryCandidate_of_le hr hnm, Option.bind_some]
    split_ifs at h ⊢
    · obtain ⟨x', hx', rfl⟩ := Option.map_eq_some_iff.1 h
      rw [ih hx', Option.map_some]
    · exact h

/-- A candidate comes through if each entry of the chain has a multiple that is not below it. -/
theorem exists_feed (h : ChainStands c caps ss P) (hc : c ≤ c') (hends : ∀ p ∈ P, Ends p c') :
    ∃ n x, feed n ss c' = some x := by
  induction caps generalizing ss P with
  | nil =>
    obtain ⟨s, rfl, hmax, hstands⟩ := h
    obtain ⟨n, hn⟩ := exists_tryCandidate hstands hc hends
    obtain ⟨r, hr⟩ := hn n le_rfl
    refine ⟨n, ?_⟩
    rw [feed, hr, Option.bind_some]
    split_ifs
    · exact ⟨_, rfl⟩
    · exact ⟨_, rfl⟩
  | cons M caps ih =>
    obtain ⟨s, ss₁, rfl, hmax, hstands, hrest⟩ := h
    obtain ⟨n, hn⟩ := exists_tryCandidate hstands hc fun p hp => hends p (List.mem_of_mem_take hp)
    obtain ⟨n', x, hx⟩ := ih hrest fun p hp => hends p (List.mem_of_mem_drop hp)
    obtain ⟨r, hr⟩ := hn (max n n') (le_max_left _ _)
    refine ⟨max n n', ?_⟩
    rw [feed, hr, Option.bind_some, feed_of_le hx (le_max_right _ _)]
    split_ifs
    · exact ⟨_, rfl⟩
    · exact ⟨_, rfl⟩

/-! ### The entries for 2 and for odd numbers, with a wrap -/

/-- The entry for 2 stops each larger even number. -/
theorem hits_two (h : 2 < c) (heven : c % 2 = 0) (hc : c < 2 ^ 64) : Hits 2 c := by
  have hindex : 2 * factor 2 (c / 2 - 2) = c := by
    rw [show factor 2 (c / 2 - 2) = c / 2 - 2 + 2 from rfl]
    omega
  have hmultiple (m : ℕ) (hm : m ≤ c / 2 - 2) :
      (PrimeSieveEntry.advance^[m] (.create 2)).multiple = 2 * factor 2 m := by
    rw [iterate_create]
    refine u64_of_lt ?_
    rw [show factor 2 m = m + 2 from rfl]
    omega
  refine ⟨_, ⟨c / 2 - 2, rfl, ?_, fun m hm => ?_⟩, ?_⟩
  · rw [hmultiple _ le_rfl, hindex]
  · rw [hmultiple m hm.le, show factor 2 m = m + 2 from rfl]
    omega
  · rw [hmultiple _ le_rfl, hindex]

/-- One or two steps of a length that is even and not divisible by 3 lead from an odd number to a factor. -/
private theorem exists_factor_add {k N : ℕ} (hp : 2 < p) (hk : k % 2 = 1) (hN : 5 ≤ N) (h2 : N % 2 = 0) (h3 : N % 3 = 1) :
    ∃ j n, factor p n = k + N * j := by
  rcases Nat.lt_or_ge 3 p with hp3 | hp3
  · by_cases h1 : (k + N) % 3 = 0
    · obtain ⟨n, hn⟩ := PrimeSieveEntry.exists_factor_eq hp3 (show 5 ≤ k + N + N by omega) (by omega) (by omega)
      exact ⟨2, n, by omega⟩
    · obtain ⟨n, hn⟩ := PrimeSieveEntry.exists_factor_eq hp3 (show 5 ≤ k + N by omega) (by omega) h1
      exact ⟨1, n, by omega⟩
  · obtain rfl : p = 3 := by omega
    have hfactor (n : ℕ) : factor 3 n = 2 * n + 3 := rfl
    refine ⟨1, (k + N - 3) / 2, ?_⟩
    rw [hfactor]
    omega

/-- The multiples of an odd number come to the largest value. -/
theorem ends_of_odd (hp : 2 < p) (hodd : p % 2 = 1) (hc : c < 2 ^ 64) : Ends p c := by
  refine FirstFrom.exists_iff.2 ?_
  suffices hlast : ∃ n, u64 (p * factor p n) = 2 ^ 64 - 1 by
    obtain ⟨n, hn⟩ := hlast
    refine ⟨n, ?_⟩
    rw [iterate_create]
    dsimp only
    omega
  have hcop : Nat.Coprime p (2 ^ 64) := (Nat.coprime_two_right.2 (Nat.odd_iff.2 hodd)).pow_right 64
  obtain ⟨k, -, hk⟩ := Nat.exists_mul_mod_eq_of_coprime (2 ^ 64 - 1) hcop (by decide)
  have hkodd : k % 2 = 1 := by
    have hdvd : 2 ∣ 2 ^ 64 := by norm_num
    have hmod : p * k % 2 ^ 64 % 2 = (2 ^ 64 - 1) % 2 ^ 64 % 2 := by rw [hk]
    rw [Nat.mod_mod_of_dvd _ hdvd, Nat.mul_mod, hodd, one_mul, Nat.mod_mod] at hmod
    omega
  have hshift (j : ℕ) : u64 (p * (k + 2 ^ 64 * j)) = 2 ^ 64 - 1 := by
    rw [u64, Nat.mul_add, Nat.mul_left_comm, Nat.add_mul_mod_self_left, hk]
    decide
  obtain ⟨j, n, hn⟩ := exists_factor_add hp hkodd (show 5 ≤ 2 ^ 64 by norm_num) (by norm_num) (by norm_num)
  exact ⟨n, by rw [hn, hshift]⟩

/-! ### Runs -/

/-- The primes of the chain: 2 comes first, and the others are odd. -/
structure OddAfterTwo (P : List ℕ) : Prop where
  odd : ∀ p ∈ P, p = 2 ∨ 2 < p ∧ p % 2 = 1
  two : ∃ P', P = 2 :: P'

private theorem OddAfterTwo.ends_iff (h : OddAfterTwo P) (hcaps : ∀ M ∈ caps, 1 ≤ M) (hc : c < 2 ^ 64)
    (hfirst : ∀ p ∈ P.take (caps.headD P.length), Ends p c) : ∀ p ∈ P, Ends p c := by
  intro p hp
  obtain ⟨P', rfl⟩ := h.two
  obtain rfl | ⟨hlt, hodd⟩ := h.odd p hp
  · refine hfirst 2 ?_
    obtain ⟨k, hk⟩ : ∃ k, caps.headD (2 :: P').length = k + 1 := by
      cases caps with
      | nil => exact ⟨P'.length, rfl⟩
      | cons M caps => exact ⟨M - 1, (Nat.sub_add_cancel (hcaps M List.mem_cons_self)).symm⟩
    rw [hk, List.take_succ_cons]
    exact List.mem_cons_self
  · exact ends_of_odd hlt hodd hc

private theorem OddAfterTwo.grow (h : OddAfterTwo P) (h2 : 2 < c) (hc : c < 2 ^ 64) : OddAfterTwo (grow 0 P c) := by
  unfold PrimeSieve.grow
  split_ifs with hverdict
  · obtain ⟨P', rfl⟩ := h.two
    refine ⟨fun p hp => ?_, ⟨P' ++ [c], rfl⟩⟩
    obtain hp | hp := List.mem_append.1 hp
    · exact h.odd p hp
    · obtain rfl := List.mem_singleton.1 hp
      refine .inr ⟨h2, ?_⟩
      by_contra heven
      rw [verdict_of_hits ⟨2, List.mem_cons_self, hits_two h2 (by omega) hc⟩] at hverdict
      cases hverdict
  · exact h

private theorem feedAll_of_le {x : List ℤ × List PrimeSieve} (h : feedAll n ss cs = some x) (hnm : n ≤ m) :
    feedAll m ss cs = some x := by
  induction cs generalizing ss x with
  | nil => exact h
  | cons c cs ih =>
    rw [feedAll, Option.bind_eq_some_iff] at h
    obtain ⟨r, hr, h⟩ := h
    obtain ⟨x', hx', rfl⟩ := Option.map_eq_some_iff.1 h
    rw [feedAll, feed_of_le hr hnm, Option.bind_some, ih hx', Option.map_some]

/-- What a run of the chain does, and where it leaves the sieves. -/
theorem feedAll_spec {rs : List ℤ} (h : ChainStands c caps ss P) (hP : OddAfterTwo P) (hcaps : ∀ M ∈ caps, 1 ≤ M)
    (hcs : (c :: cs).Pairwise (· ≤ ·)) (h2 : ∀ c ∈ cs, 2 < c) (hlt : ∀ c ∈ cs, c < 2 ^ 64)
    (hfeed : feedAll n ss cs = some (rs, ss')) :
    RunEnds 0 P cs ∧ rs = (sieveRun 0 P cs).1 ∧ ∃ c', ChainStands c' caps ss' (sieveRun 0 P cs).2 := by
  induction cs generalizing c ss P rs with
  | nil =>
    obtain ⟨rfl, rfl⟩ := Prod.mk.inj (Option.some.inj hfeed)
    exact ⟨trivial, rfl, c, h⟩
  | cons c' cs ih =>
    obtain ⟨hle, hcs'⟩ := List.pairwise_cons.1 hcs
    have hc := h2 c' List.mem_cons_self
    have hlt' := hlt c' List.mem_cons_self
    rw [feedAll, Option.bind_eq_some_iff] at hfeed
    obtain ⟨⟨r, ss₁⟩, hr, hfeed⟩ := hfeed
    obtain ⟨⟨rs', ss₂⟩, hx, heq⟩ := Option.map_eq_some_iff.1 hfeed
    obtain ⟨rfl, rfl⟩ := Prod.mk.inj heq
    obtain ⟨hfirst, rfl, hstands⟩ := feed_spec h hcaps (hle c' List.mem_cons_self) hr
    obtain ⟨hends, rfl, hlast⟩ := ih hstands (hP.grow hc hlt') hcs' (fun x hx => h2 x (List.mem_cons_of_mem _ hx))
      (fun x hx => hlt x (List.mem_cons_of_mem _ hx)) hx
    exact ⟨⟨hP.ends_iff hcaps hlt' hfirst, hends⟩, rfl, hlast⟩

/-- The chain returns if one sieve without a bound does. -/
theorem exists_feedAll (h : ChainStands c caps ss P) (hcaps : ∀ M ∈ caps, 1 ≤ M) (hcs : (c :: cs).Pairwise (· ≤ ·))
    (hends : RunEnds 0 P cs) : ∃ n x, feedAll n ss cs = some x := by
  induction cs generalizing c ss P with
  | nil => exact ⟨0, _, rfl⟩
  | cons c' cs ih =>
    obtain ⟨hle, hcs'⟩ := List.pairwise_cons.1 hcs
    have hc := hle c' List.mem_cons_self
    obtain ⟨hends, hends'⟩ := hends
    obtain ⟨n, ⟨r, ss₁⟩, hr⟩ := exists_feed h hc hends
    obtain ⟨-, -, hstands⟩ := feed_spec h hcaps hc hr
    obtain ⟨n', x, hx⟩ := ih hstands hcs' hends'
    refine ⟨max n n', (r :: x.1, x.2), ?_⟩
    rw [feedAll, feed_of_le hr (le_max_left _ _), Option.bind_some, feedAll_of_le hx (le_max_right _ _), Option.map_some]

/-- The entries of the sieve are those for the elements of `B`, each advanced some number of times. -/
def HoldsBlock (s : PrimeSieve) (B : List ℕ) : Prop :=
  Multiset.Rel (fun p e => ∃ n, PrimeSieveEntry.advance^[n] (.create p) = e) B s.primeSieve

private theorem Stands.holdsBlock (h : Stands s P c) : HoldsBlock s P :=
  h.rel.mono fun _ _ _ _ ⟨_, _, n, hn, _⟩ => ⟨n, hn⟩

private theorem ChainStands.holdsBlocks (h : ChainStands c caps ss P) : List.Forall₂ HoldsBlock ss (blocks caps P) := by
  induction caps generalizing ss P with
  | nil =>
    obtain ⟨s, rfl, -, hstands⟩ := h
    exact .cons hstands.holdsBlock .nil
  | cons M caps ih =>
    obtain ⟨s, ss', rfl, -, hstands, hrest⟩ := h
    exact .cons hstands.holdsBlock (ih hrest)

/-- The primes after a run are the ones before and the candidates with the result 1. -/
theorem sieveRun_accepted (M : ℕ) (P cs : List ℕ) :
    (sieveRun M P cs).2 = P ++ withResult 1 cs (sieveRun M P cs).1 := by
  induction cs generalizing P with
  | nil => exact (List.append_nil P).symm
  | cons c cs ih =>
    rw [sieveRun]
    dsimp only
    rw [ih]
    unfold grow
    by_cases h : verdict M P c = 1
    · rw [if_pos h, List.append_assoc]
      simp [withResult, h]
    · rw [if_neg h]
      simp [withResult, h]

/-- The chain accepts what one sieve without a bound accepts, in this order, and its sieves hold the consecutive blocks
of that.
Where the values do not wrap both return, with the primes. -/
theorem chain_eq_sieve (caps cs : List ℕ) (hcaps : ∀ M ∈ caps, 1 ≤ M) (hcs : (2 :: 3 :: cs).Pairwise (· < ·))
    (hlt : ∀ c ∈ cs, c < 2 ^ 64) :
    (∀ rs, (∃ n ss, feedAll n (chain caps) (2 :: 3 :: cs) = some (rs, ss)) ↔
      ∃ n s, tryAll n (create 0) (2 :: 3 :: cs) = some (rs, s)) ∧
    (∀ n rs ss, feedAll n (chain caps) (2 :: 3 :: cs) = some (rs, ss) →
      List.Forall₂ HoldsBlock ss (blocks caps (withResult 1 (2 :: 3 :: cs) rs))) ∧
    (HasPrimes 2 (2 :: 3 :: cs) → (∀ c ∈ cs, 5 * c < 2 ^ 64) →
      ∃ n ss, feedAll n (chain caps) (2 :: 3 :: cs) = some ((2 :: 3 :: cs).map fun c => if c.Prime then 1 else 0, ss)) := by
  have hsorted : (0 :: 2 :: 3 :: cs).Pairwise (· ≤ ·) :=
    List.pairwise_cons.2 ⟨fun x _ => Nat.zero_le x, hcs.imp fun h => h.le⟩
  have hafter : ∀ c ∈ 3 :: cs, 2 < c := (List.pairwise_cons.1 hcs).1
  have hlt' : ∀ c ∈ 3 :: cs, c < 2 ^ 64 := by
    intro c hc
    obtain rfl | hc := List.mem_cons.1 hc
    · norm_num
    · exact hlt c hc
  have hgrow : grow 0 [] 2 = [2] := by
    rw [grow, verdict_of_room (by simp) (.inl rfl), if_pos rfl, List.nil_append]
  have htwo : OddAfterTwo (grow 0 [] 2) := by
    rw [hgrow]
    exact ⟨fun p hp => .inl (List.mem_singleton.1 hp), [], rfl⟩
  -- both are compared with the run on lists: the chain stands for its accepted primes in blocks
  have hrun {n : ℕ} {rs : List ℤ} {ss : List PrimeSieve} (h : feedAll n (chain caps) (2 :: 3 :: cs) = some (rs, ss)) :
      RunEnds 0 [] (2 :: 3 :: cs) ∧ rs = (sieveRun 0 [] (2 :: 3 :: cs)).1 ∧
        ∃ c', ChainStands c' caps ss (sieveRun 0 [] (2 :: 3 :: cs)).2 := by
    rw [feedAll, Option.bind_eq_some_iff] at h
    obtain ⟨⟨r, ss₁⟩, hr, h⟩ := h
    obtain ⟨⟨rs', ss₂⟩, hx, heq⟩ := Option.map_eq_some_iff.1 h
    obtain ⟨rfl, rfl⟩ := Prod.mk.inj heq
    obtain ⟨-, rfl, hstands⟩ := feed_spec (chainStands_chain caps) hcaps (Nat.zero_le 2) hr
    obtain ⟨hends, rfl, hlast⟩ := feedAll_spec hstands htwo hcaps (List.pairwise_cons.1 hsorted).2 hafter hlt' hx
    exact ⟨⟨fun p hp => (by cases hp), hends⟩, rfl, hlast⟩
  have hback (h : RunEnds 0 [] (2 :: 3 :: cs)) :
      ∃ n ss, feedAll n (chain caps) (2 :: 3 :: cs) = some ((sieveRun 0 [] (2 :: 3 :: cs)).1, ss) := by
    obtain ⟨n, ⟨rs, ss⟩, hx⟩ := exists_feedAll (chainStands_chain caps) hcaps hsorted h
    rw [(hrun hx).2.1] at hx
    exact ⟨n, ss, hx⟩
  refine ⟨fun rs => ⟨?_, ?_⟩, ?_, ?_⟩
  · rintro ⟨n, ss, h⟩
    -- the run ends for the chain, hence for the one sieve, with the same results
    obtain ⟨hends, rfl, -⟩ := hrun h
    obtain ⟨m, hm⟩ := exists_tryAll (stands_create 0) hsorted hends
    obtain ⟨⟨rs', s⟩, hs⟩ := hm m le_rfl
    obtain ⟨-, rfl, -⟩ := tryAll_spec (stands_create 0) hsorted hs
    exact ⟨m, s, hs⟩
  · rintro ⟨n, s, h⟩
    obtain ⟨hends, rfl, -⟩ := tryAll_spec (stands_create 0) hsorted h
    exact hback hends
  · intro n rs ss h
    obtain ⟨-, rfl, c', hstands⟩ := hrun h
    rw [sieveRun_accepted, List.nil_append] at hstands
    exact hstands.holdsBlocks
  · intro hprimes hwrap
    have hzero : firstPrimes (bounded 0 (Nat.count Nat.Prime 2)) = [] := by
      have hcount : bounded 0 (Nat.count Nat.Prime 2) = 0 := by decide
      rw [hcount]
      rfl
    have hlo : ∀ c ∈ 2 :: 3 :: cs, 2 ≤ c := by
      intro c hc
      obtain rfl | hc := List.mem_cons.1 hc
      · exact le_rfl
      · exact (hafter c hc).le
    have hwrap' : ∀ c ∈ 2 :: 3 :: cs, 5 * c < 2 ^ 64 := by
      intro c hc
      obtain rfl | hc := List.mem_cons.1 hc
      · norm_num
      · obtain rfl | hc := List.mem_cons.1 hc
        · norm_num
        · exact hwrap c hc
    obtain ⟨hends, hrun⟩ := sieveRun_firstPrimes (M := 0) hcs hlo le_rfl hprimes hwrap'
    rw [hzero] at hends hrun
    obtain ⟨n, ss, hx⟩ := hback hends
    have hresult : (2 :: 3 :: cs).map (result 0) = (2 :: 3 :: cs).map fun c => if c.Prime then 1 else 0 :=
      List.map_congr_left fun c _ => if_pos (.inl rfl)
    exact ⟨n, ss, by rw [hx, hrun, hresult]⟩

/-- Two sieves for one prime each, and one without a bound. -/
theorem chain_eq_sieve_two : {rs | ∃ n ss, feedAll n (chain [1, 1]) [2, 3, 4, 5] = some (rs, ss)} =
    {rs | ∃ n s, tryAll n (create 0) [2, 3, 4, 5] = some (rs, s)} :=
  Set.ext (chain_eq_sieve [1, 1] [4, 5] (by decide) (by decide) (by decide)).1

end PrimeSieve

end ProcessNetwork
