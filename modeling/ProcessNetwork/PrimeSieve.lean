import ProcessNetwork.Lib.Heap
import ProcessNetwork.Lib.Unsigned

/-!
# `PrimeSieve`

The sieve of `PrimeSieve.cc`.  The values are `unsigned long long` and wrap.  The two loops that advance the smallest
multiple
count their rounds, as they need not end: the result is `none` when the rounds are used up.  It is `none` too when the `int`
that counts the candidates of a call overflows.

A sieve that is not empty has a smallest multiple, so that the front of the vector is read only where it exists.
-/

namespace ProcessNetwork

structure PrimeSieveEntry where
  multiple : ℕ
  advancer : ℕ × ℕ
deriving DecidableEq

namespace PrimeSieveEntry

/-- `Advance`. -/
def advance (e : PrimeSieveEntry) : PrimeSieveEntry := ⟨u64 (e.multiple + e.advancer.1), e.advancer.swap⟩

/-- The constructor. -/
def create (pr : ℕ) : PrimeSieveEntry :=
  (⟨pr, if 3 < pr then (u64 (pr * 4), u64 (pr * 2)) else if 2 < pr then (u64 (pr * 2), u64 (pr * 2)) else (pr, pr)⟩ :
    PrimeSieveEntry).advance

/-- `operator<`, the reverse of the order of the multiples. -/
def less (x y : PrimeSieveEntry) : Bool := decide (y.multiple < x.multiple)

theorem strictWeak_less : Heap.StrictWeak less where
  asymm h := decide_eq_false (of_decide_eq_true h).not_gt
  trans h h' := decide_eq_false
    (not_lt.2 ((not_lt.1 (of_decide_eq_false h)).trans (not_lt.1 (of_decide_eq_false h'))))

end PrimeSieveEntry

open PrimeSieveEntry (less)
open Heap (pushHeap popHeap)

structure PrimeSieve where
  primeSieve : List PrimeSieveEntry
  maxNumPrimes : ℕ
deriving DecidableEq

namespace PrimeSieve

/-- The constructor. -/
def create (maxNumPrimes : ℕ) : PrimeSieve := ⟨[], maxNumPrimes⟩

def numPrimes (s : PrimeSieve) : ℕ := s.primeSieve.length

/-- `primeSieve[0].multiple`. -/
def smallestSieveMultiple (s : PrimeSieve) : ℕ :=
  match s.primeSieve with
  | [] => 0
  | e :: _ => e.multiple

/-- The smallest multiple is advanced and the heap is made again. -/
def advanceSmallest (s : PrimeSieve) : PrimeSieve :=
  match s.primeSieve with
  | [] => s
  | e :: es => { s with primeSieve := pushHeap less (popHeap less (e.advance :: es)) }

/-- A new prime is inserted. -/
def insert (s : PrimeSieve) (pr : ℕ) : PrimeSieve :=
  { s with primeSieve := pushHeap less (s.primeSieve ++ [PrimeSieveEntry.create pr]) }

/-- A sieve with the bound 0 never fills up. -/
def full (s : PrimeSieve) : Bool := decide (s.maxNumPrimes ≠ 0 ∧ s.maxNumPrimes ≤ s.primeSieve.length)

/-- The loop of `TryCandidate`. -/
def tryLoop (primeCandidate : ℕ) : ℕ → PrimeSieve → Option (ℤ × PrimeSieve)
  | 0, _ => none
  | n + 1, s =>
    if s.smallestSieveMultiple < primeCandidate then tryLoop primeCandidate n s.advanceSmallest
    else if primeCandidate = s.smallestSieveMultiple then some (0, s)
    else if s.full = true then some (-1, s)
    else some (1, s.insert primeCandidate)

/-- `TryCandidate`: 1 for a prime that is added, -1 for a candidate that passes a full sieve, and 0 for one that is
stopped. -/
def tryCandidate (n : ℕ) (s : PrimeSieve) (primeCandidate : ℕ) : Option (ℤ × PrimeSieve) :=
  if s.primeSieve = [] then some (1, s.insert primeCandidate) else tryLoop primeCandidate n s

/-- The output variables and arrays of `TryCandidates`. -/
structure Outputs where
  numPrimes : ℕ
  numPassed : ℕ
  primes : ℕ → ℕ
  passed : ℕ → ℕ

namespace Outputs

def reset (o : Outputs) : Outputs := { o with numPrimes := 0, numPassed := 0 }

/-- `primes[numPrimes++] = pr`. -/
def addPrime (o : Outputs) (pr : ℕ) : Outputs :=
  { o with primes := Function.update o.primes o.numPrimes pr, numPrimes := u32 (o.numPrimes + 1) }

/-- `passed[numPassed++] = pr`. -/
def addPassed (o : Outputs) (pr : ℕ) : Outputs :=
  { o with passed := Function.update o.passed o.numPassed pr, numPassed := u32 (o.numPassed + 1) }

end Outputs

/-- `for (int i=0; i<numCandidates; i++)` over the candidates.  The count is an `unsigned`, and the step of `i` past `2
^ 31 - 1`
is undefined. -/
def forCandidates {X : Type} (f : X → ℕ → Option X) (x : X) (candidates : List ℕ) : Option X :=
  if candidates.length < 2 ^ 31 then candidates.foldlM f x else none

theorem forCandidates_of_lt {X : Type} {f : X → ℕ → Option X} {x : X} {candidates : List ℕ}
    (h : candidates.length < 2 ^ 31) :
    forCandidates f x candidates = candidates.foldlM f x := if_pos h

theorem length_lt_of_forCandidates {X : Type} {f : X → ℕ → Option X} {x y : X} {candidates : List ℕ}
    (h : forCandidates f x candidates = some y) : candidates.length < 2 ^ 31 := by
  by_contra hlen
  rw [forCandidates, if_neg hlen] at h
  cases h

/-- One candidate of `TryCandidatesSimple`. -/
def simpleStep (n : ℕ) (x : PrimeSieve × Outputs) (candidate : ℕ) : Option (PrimeSieve × Outputs) :=
  (tryCandidate n x.1 candidate).map fun r =>
    (r.2, if r.1 = 1 then x.2.addPrime candidate else if r.1 = -1 then x.2.addPassed candidate else x.2)

def tryCandidatesSimple (n : ℕ) (s : PrimeSieve) (candidates : List ℕ) (o : Outputs) : Option (PrimeSieve × Outputs) :=
  forCandidates (simpleStep n) (s, o.reset) candidates

/-- The inner loop of `TryCandidates`. -/
def skipTo (primeCandidate : ℕ) : ℕ → PrimeSieve → Option PrimeSieve
  | 0, _ => none
  | n + 1, s => if s.smallestSieveMultiple < primeCandidate then skipTo primeCandidate n s.advanceSmallest else some s

/-- One candidate of `TryCandidates`. -/
def step (n : ℕ) (x : PrimeSieve × Outputs) (candidate : ℕ) : Option (PrimeSieve × Outputs) :=
  (skipTo candidate n x.1).map fun s =>
    if candidate < s.smallestSieveMultiple then
      if s.full = true then (s, x.2.addPassed candidate) else (s.insert candidate, x.2.addPrime candidate)
    else (s, x.2)

def tryCandidates (n : ℕ) (s : PrimeSieve) (candidates : List ℕ) (o : Outputs) : Option (PrimeSieve × Outputs) :=
  match candidates with
  | [] => some (s, o)
  | c :: cs =>
    if s.primeSieve = [] then forCandidates (step n) (s.insert c, o.reset.addPrime c) cs
    else forCandidates (step n) (s, o.reset) (c :: cs)

end PrimeSieve

end ProcessNetwork
