import ProcessNetwork.PrimeSieve

/-!
# Batches of candidates

`TryCandidates` against `TryCandidatesSimple`, and against itself when the candidates are cut into batches.  Both are read as
the results of `TryCandidate` on one candidate after the other (`tryAll`).  They agree on every sieve and in every number of
rounds, except on an empty array, for which `TryCandidates` returns before it sets its output variables, and on an array of
more than `2 ^ 31 - 1` candidates, which the index of both loops cannot count.
-/

namespace ProcessNetwork

namespace PrimeSieve

variable {n c : ℕ} {s s' : PrimeSieve} {o : Outputs} {cs : List ℕ}

/-! ### The two loops -/

theorem length_advanceSmallest (s : PrimeSieve) : s.advanceSmallest.primeSieve.length = s.primeSieve.length := by
  unfold advanceSmallest
  cases hs : s.primeSieve with
  | nil => simp [hs]
  | cons e es => rw [(Heap.pushHeap_perm _).length_eq, (Heap.popHeap_perm _).length_eq, List.length_cons, List.length_cons]

private theorem length_insert (s : PrimeSieve) (pr : ℕ) : (s.insert pr).primeSieve.length = s.primeSieve.length + 1 := by
  unfold insert
  rw [(Heap.pushHeap_perm _).length_eq, List.length_append, List.length_singleton]

private theorem ne_nil_insert (s : PrimeSieve) (pr : ℕ) : (s.insert pr).primeSieve ≠ [] :=
  List.ne_nil_of_length_pos (by rw [length_insert]; exact Nat.succ_pos _)

theorem length_skipTo (h : skipTo c n s = some s') : s'.primeSieve.length = s.primeSieve.length := by
  induction n generalizing s with
  | zero => cases h
  | succ n ih =>
    rw [skipTo] at h
    split_ifs at h with hlt
    · exact (ih h).trans (length_advanceSmallest s)
    · rw [Option.some.inj h]

/-- `TryCandidate` looks at the candidate after the loop of `TryCandidates`. -/
theorem tryLoop_eq (c n : ℕ) (s : PrimeSieve) :
    tryLoop c n s = (skipTo c n s).map fun s =>
      if c < s.smallestSieveMultiple then if s.full = true then (-1, s) else (1, s.insert c) else (0, s) := by
  induction n generalizing s with
  | zero => rfl
  | succ n ih =>
    rw [tryLoop, skipTo]
    by_cases hlt : s.smallestSieveMultiple < c
    · rw [if_pos hlt, if_pos hlt]
      exact ih _
    · rw [if_neg hlt, if_neg hlt, Option.map_some]
      obtain heq | hless := Nat.eq_or_lt_of_not_lt hlt
      · rw [if_pos heq.symm, if_neg (by omega)]
      · rw [if_neg (by omega), if_pos hless]
        by_cases hfull : s.full = true
        · rw [if_pos hfull, if_pos hfull]
        · rw [if_neg hfull, if_neg hfull]

private theorem simpleStep_eq (hs : s.primeSieve ≠ []) (n c : ℕ) (o : Outputs) :
    simpleStep n (s, o) c = step n (s, o) c := by
  unfold simpleStep step tryCandidate
  dsimp only
  rw [if_neg hs, tryLoop_eq]
  cases skipTo c n s with
  | none => rfl
  | some s' =>
    rw [Option.map_some, Option.map_some, Option.map_some]
    by_cases hless : c < s'.smallestSieveMultiple
    · by_cases hfull : s'.full = true
      · simp [hless, hfull]
      · simp [hless, hfull]
    · simp [hless]

private theorem ne_nil_of_step {x : PrimeSieve × Outputs} (hs : s.primeSieve ≠ []) (h : step n (s, o) c = some x) :
    x.1.primeSieve ≠ [] := by
  obtain ⟨s', hs', rfl⟩ := Option.map_eq_some_iff.1 h
  have hne : s'.primeSieve ≠ [] := List.ne_nil_of_length_pos (by
    rw [length_skipTo hs']
    exact List.length_pos_iff.2 hs)
  split_ifs
  · exact hne
  · exact ne_nil_insert _ _
  · exact hne

private theorem foldlM_eq (hs : s.primeSieve ≠ []) (n : ℕ) (cs : List ℕ) (o : Outputs) :
    cs.foldlM (simpleStep n) (s, o) = cs.foldlM (step n) (s, o) := by
  induction cs generalizing s o with
  | nil => rfl
  | cons c cs ih =>
    rw [List.foldlM_cons, List.foldlM_cons, simpleStep_eq hs]
    cases hx : step n (s, o) c with
    | none => rfl
    | some x => exact ih (ne_nil_of_step hs hx) x.2

private theorem tryCandidates_cons (n : ℕ) (s : PrimeSieve) (c : ℕ) (cs : List ℕ) (o : Outputs)
    (hlen : (c :: cs).length < 2 ^ 31) :
    tryCandidates n s (c :: cs) o = tryCandidatesSimple n s (c :: cs) o := by
  have hlen' : cs.length < 2 ^ 31 := (Nat.lt_succ_self _).trans hlen
  simp only [tryCandidates, tryCandidatesSimple, forCandidates_of_lt hlen, forCandidates_of_lt hlen']
  by_cases hs : s.primeSieve = []
  · rw [if_pos hs, List.foldlM_cons, ← foldlM_eq (ne_nil_insert s c)]
    unfold simpleStep tryCandidate
    dsimp only
    rw [if_pos hs]
    rfl
  · rw [if_neg hs, foldlM_eq hs]

private theorem tryCandidates_eq_iff (n : ℕ) (s : PrimeSieve) (cs : List ℕ) (o : Outputs) (hlen : cs.length < 2 ^ 31) :
    tryCandidates n s cs o = tryCandidatesSimple n s cs o ↔ (cs = [] → o.numPrimes = 0 ∧ o.numPassed = 0) := by
  cases cs with
  | nil =>
    constructor
    · intro h _
      have hreset : o = o.reset := (Prod.mk.inj (Option.some.inj h)).2
      exact ⟨congrArg Outputs.numPrimes hreset, congrArg Outputs.numPassed hreset⟩
    · intro h
      obtain ⟨hprimes, hpassed⟩ := h rfl
      have hreset : o.reset = o := by
        cases o
        cases hprimes
        cases hpassed
        rfl
      show some (s, o) = some (s, o.reset)
      rw [hreset]
  | cons c cs => exact iff_of_true (tryCandidates_cons n s c cs o hlen) fun h => (by cases h)

/-! ### The outputs as lists -/

/-- The results of `TryCandidate` on one candidate after the other, and the sieve after them. -/
def tryAll (n : ℕ) : PrimeSieve → List ℕ → Option (List ℤ × PrimeSieve)
  | s, [] => some ([], s)
  | s, c :: cs => (tryCandidate n s c).bind fun r => (tryAll n r.2 cs).map fun x => (r.1 :: x.1, x.2)

/-- The candidates with the result `r`. -/
def withResult (r : ℤ) (cs : List ℕ) (rs : List ℤ) : List ℕ := ((cs.zip rs).filter fun x => x.2 = r).map (·.1)

namespace Outputs

/-- What is in `primes[0]`, ..., `primes[numPrimes - 1]`. -/
def primeList (o : Outputs) : List ℕ := (List.range o.numPrimes).map o.primes

def passedList (o : Outputs) : List ℕ := (List.range o.numPassed).map o.passed

/-- The candidates are sorted by their results. -/
def record (o : Outputs) (cs : List ℕ) (rs : List ℤ) : Outputs :=
  (cs.zip rs).foldl (fun o x => if x.2 = 1 then o.addPrime x.1 else if x.2 = -1 then o.addPassed x.1 else o) o

theorem map_update {f : ℕ → ℕ} {k v : ℕ} :
    (List.range (k + 1)).map (Function.update f k v) = (List.range k).map f ++ [v] := by
  rw [List.range_succ, List.map_append, List.map_singleton, Function.update_self]
  congr 1
  refine List.map_congr_left fun i hi => Function.update_of_ne ?_ _ _
  have := List.mem_range.1 hi
  omega

private theorem addPrime_primeList (h : o.numPrimes + 1 < 2 ^ 32) : (o.addPrime c).primeList = o.primeList ++ [c] := by
  unfold primeList addPrime
  dsimp only
  rw [u32_of_lt h, map_update]

private theorem addPassed_passedList (h : o.numPassed + 1 < 2 ^ 32) : (o.addPassed c).passedList = o.passedList ++ [c] := by
  unfold passedList addPassed
  dsimp only
  rw [u32_of_lt h, map_update]

private theorem record_lists (o : Outputs) (cs : List ℕ) (rs : List ℤ) (hprimes : o.numPrimes + cs.length < 2 ^ 32)
    (hpassed : o.numPassed + cs.length < 2 ^ 32) :
    (o.record cs rs).primeList = o.primeList ++ withResult 1 cs rs ∧
      (o.record cs rs).passedList = o.passedList ++ withResult (-1) cs rs := by
  induction cs generalizing o rs with
  | nil => simp [record, withResult]
  | cons c cs ih =>
    cases rs with
    | nil => simp [record, withResult]
    | cons r rs =>
      rw [List.length_cons] at hprimes hpassed
      by_cases hr : r = 1
      · subst hr
        have hnum : (o.addPrime c).numPrimes = o.numPrimes + 1 := u32_of_lt (by omega)
        obtain ⟨h1, h2⟩ := ih (o.addPrime c) rs (by omega) (show o.numPassed + cs.length < 2 ^ 32 by omega)
        rw [addPrime_primeList (by omega), List.append_assoc] at h1
        exact ⟨h1, h2⟩
      · by_cases hr' : r = -1
        · subst hr'
          have hnum : (o.addPassed c).numPassed = o.numPassed + 1 := u32_of_lt (by omega)
          obtain ⟨h1, h2⟩ := ih (o.addPassed c) rs (show o.numPrimes + cs.length < 2 ^ 32 by omega) (by omega)
          rw [addPassed_passedList (by omega), List.append_assoc] at h2
          exact ⟨h1, h2⟩
        · have hrec : o.record (c :: cs) (r :: rs) = o.record cs rs := by simp [record, hr, hr']
          have hone : withResult 1 (c :: cs) (r :: rs) = withResult 1 cs rs := by simp [withResult, hr]
          have hpass : withResult (-1) (c :: cs) (r :: rs) = withResult (-1) cs rs := by simp [withResult, hr']
          rw [hrec, hone, hpass]
          exact ih o rs (by omega) (by omega)

end Outputs

private theorem foldlM_simpleStep (n : ℕ) (s : PrimeSieve) (cs : List ℕ) (o : Outputs) :
    cs.foldlM (simpleStep n) (s, o) = (tryAll n s cs).map fun x => (x.2, o.record cs x.1) := by
  induction cs generalizing s o with
  | nil => rfl
  | cons c cs ih =>
    rw [List.foldlM_cons, tryAll]
    unfold simpleStep
    cases tryCandidate n s c with
    | none => rfl
    | some r =>
      show cs.foldlM (simpleStep n) _ = _
      rw [ih, Option.bind_some, Option.map_map]
      rfl

theorem tryAll_append (n : ℕ) (s : PrimeSieve) (cs cs' : List ℕ) :
    tryAll n s (cs ++ cs') = (tryAll n s cs).bind fun x => (tryAll n x.2 cs').map fun y => (x.1 ++ y.1, y.2) := by
  induction cs generalizing s with
  | nil =>
    rw [List.nil_append, tryAll, Option.bind_some]
    cases tryAll n s cs' <;> rfl
  | cons c cs ih =>
    rw [List.cons_append, tryAll, tryAll]
    cases tryCandidate n s c with
    | none => rfl
    | some r =>
      rw [Option.bind_some, Option.bind_some, ih]
      cases tryAll n r.2 cs with
      | none => rfl
      | some x =>
        rw [Option.bind_some, Option.map_some, Option.bind_some]
        cases tryAll n x.2 cs' <;> rfl

private theorem length_tryAll {rs : List ℤ} (h : tryAll n s cs = some (rs, s')) : rs.length = cs.length := by
  induction cs generalizing s rs with
  | nil => rw [← (Prod.mk.inj (Option.some.inj h)).1]; rfl
  | cons c cs ih =>
    obtain ⟨r, -, hr⟩ := Option.bind_eq_some_iff.1 h
    obtain ⟨⟨rs', s''⟩, hx, heq⟩ := Option.map_eq_some_iff.1 hr
    obtain ⟨rfl, rfl⟩ := Prod.mk.inj heq
    rw [List.length_cons, List.length_cons, ih hx]

/-! ### Batches -/

/-- The batches, each with the values that the output variables have before the call, and the outputs put together. -/
def tryBatches (n : ℕ) : PrimeSieve → List (List ℕ × Outputs) → Option (PrimeSieve × List ℕ × List ℕ)
  | s, [] => some (s, [], [])
  | s, b :: bs => (tryCandidates n s b.1 b.2).bind fun x => (tryBatches n x.1 bs).map fun y =>
    (y.1, x.2.primeList ++ y.2.1, x.2.passedList ++ y.2.2)

/-- A call sets its output variables, or finds them as it would set them. -/
def SetsOutputs (cs : List ℕ) (o : Outputs) : Prop := cs = [] → o.numPrimes = 0 ∧ o.numPassed = 0

private theorem tryCandidatesSimple_eq (hlen : cs.length < 2 ^ 31) (n : ℕ) (s : PrimeSieve) (o : Outputs) :
    tryCandidatesSimple n s cs o = (tryAll n s cs).map fun x => (x.2, o.reset.record cs x.1) := by
  rw [tryCandidatesSimple, forCandidates_of_lt hlen, foldlM_simpleStep]

private theorem tryCandidates_lists (h : SetsOutputs cs o) (hlen : cs.length < 2 ^ 31) (n : ℕ) (s : PrimeSieve) :
    ((tryCandidates n s cs o).map fun x => (x.1, x.2.primeList, x.2.passedList)) =
      (tryAll n s cs).map fun x => (x.2, withResult 1 cs x.1, withResult (-1) cs x.1) := by
  rw [(tryCandidates_eq_iff n s cs o hlen).2 h, tryCandidatesSimple_eq hlen, Option.map_map]
  congr 1
  funext x
  have hfits : o.reset.numPrimes + cs.length < 2 ^ 32 ∧ o.reset.numPassed + cs.length < 2 ^ 32 := by
    constructor <;> dsimp only [Outputs.reset] <;> omega
  obtain ⟨hprimes, hpassed⟩ := o.reset.record_lists cs x.1 hfits.1 hfits.2
  dsimp only [Function.comp_apply]
  rw [hprimes, hpassed]
  rfl

/-- Where `TryCandidate` returns on every candidate, the two functions both return, with the same sieve and outputs, exactly
under these two conditions. -/
theorem exists_tryCandidates_iff (hall : (tryAll n s cs).isSome) (o : Outputs) :
    (∃ x, tryCandidates n s cs o = some x ∧ tryCandidatesSimple n s cs o = some x) ↔
      SetsOutputs cs o ∧ cs.length < 2 ^ 31 := by
  constructor
  · rintro ⟨x, hfast, hsimple⟩
    have hlen := length_lt_of_forCandidates hsimple
    exact ⟨(tryCandidates_eq_iff n s cs o hlen).1 (hfast.trans hsimple.symm), hlen⟩
  · rintro ⟨hout, hlen⟩
    obtain ⟨x, hx⟩ := Option.isSome_iff_exists.1 hall
    have hsimple := tryCandidatesSimple_eq hlen n s o
    rw [hx] at hsimple
    exact ⟨_, ((tryCandidates_eq_iff n s cs o hlen).2 hout).trans hsimple, hsimple⟩

private theorem withResult_append (r : ℤ) {cs' : List ℕ} {rs rs' : List ℤ} (h : rs.length = cs.length) :
    withResult r (cs ++ cs') (rs ++ rs') = withResult r cs rs ++ withResult r cs' rs' := by
  unfold withResult
  rw [List.zip_append h.symm, List.filter_append, List.map_append]

private theorem tryBatches_eq (bs : List (List ℕ × Outputs)) (h : ∀ b ∈ bs, SetsOutputs b.1 b.2)
    (hlen : (bs.flatMap (·.1)).length < 2 ^ 31) (n : ℕ) (s : PrimeSieve) :
    tryBatches n s bs = (tryAll n s (bs.flatMap (·.1))).map fun x =>
      (x.2, withResult 1 (bs.flatMap (·.1)) x.1, withResult (-1) (bs.flatMap (·.1)) x.1) := by
  induction bs generalizing s with
  | nil => rfl
  | cons b bs ih =>
    rw [List.flatMap_cons, List.length_append] at hlen
    have hb := tryCandidates_lists (h b List.mem_cons_self) (by omega) n s
    rw [List.flatMap_cons, tryAll_append, tryBatches]
    cases hx : tryCandidates n s b.1 b.2 with
    | none =>
      rw [hx, Option.map_none, eq_comm, Option.map_eq_none_iff] at hb
      rw [hb]
      rfl
    | some x =>
      rw [hx, Option.map_some, eq_comm, Option.map_eq_some_iff] at hb
      obtain ⟨⟨rs, s'⟩, hall, heq⟩ := hb
      obtain ⟨rfl, hlists⟩ := Prod.mk.inj heq
      obtain ⟨hprimes, hpassed⟩ := Prod.mk.inj hlists
      have hih := ih (fun b hb => h b (List.mem_cons_of_mem _ hb)) (by omega) x.1
      rw [hall, Option.bind_some, Option.bind_some, hih, Option.map_map, Option.map_map]
      congr 1
      funext y
      dsimp only [Function.comp_apply]
      rw [← hprimes, ← hpassed, withResult_append _ (length_tryAll hall), withResult_append _ (length_tryAll hall)]

/-- Below the limit of the index `i`, `TryCandidates` does what `TryCandidatesSimple` does exactly if the array is not
empty, or
the output variables are 0 before the call; and then the candidates may be cut into batches anywhere.  From the limit
on there
is no common result. -/
theorem tryCandidates_simple_batches (s : PrimeSieve) (o : Outputs) :
    (∀ n cs, cs.length < 2 ^ 31 → (tryCandidates n s cs o = tryCandidatesSimple n s cs o ↔ SetsOutputs cs o)) ∧
      (∀ n cs, (tryAll n s cs).isSome →
        ((∃ x, tryCandidates n s cs o = some x ∧ tryCandidatesSimple n s cs o = some x) ↔
          SetsOutputs cs o ∧ cs.length < 2 ^ 31)) ∧
      ∀ n bs, (∀ b ∈ bs, SetsOutputs b.1 b.2) → SetsOutputs (bs.flatMap (·.1)) o →
        (bs.flatMap (·.1)).length < 2 ^ 31 →
        tryBatches n s bs =
          (tryCandidates n s (bs.flatMap (·.1)) o).map fun x => (x.1, x.2.primeList, x.2.passedList) := by
  refine ⟨fun n cs hlen => tryCandidates_eq_iff n s cs o hlen, fun n cs hall => exists_tryCandidates_iff hall o,
    fun n bs h ho hlen => ?_⟩
  rw [tryBatches_eq bs h hlen, tryCandidates_lists ho hlen]

/-- Two batches, the second with what the first has left in the output variables. -/
theorem tryCandidates_simple_batches_two :
    tryCandidates 9 (create 2) [2, 3, 4, 5, 6, 7] ⟨5, 5, id, id⟩ =
        tryCandidatesSimple 9 (create 2) [2, 3, 4, 5, 6, 7] ⟨5, 5, id, id⟩ ∧
      (∃ x, tryCandidates 9 (create 2) [2, 3, 4, 5, 6, 7] ⟨5, 5, id, id⟩ = some x ∧
        tryCandidatesSimple 9 (create 2) [2, 3, 4, 5, 6, 7] ⟨5, 5, id, id⟩ = some x) ∧
      tryBatches 9 (create 2) [([2, 3, 4], ⟨0, 0, id, id⟩), ([5, 6, 7], ⟨2, 0, id, id⟩)] =
        (tryCandidates 9 (create 2) [2, 3, 4, 5, 6, 7] ⟨5, 5, id, id⟩).map fun x =>
          (x.1, x.2.primeList, x.2.passedList) := by
  obtain ⟨hequal, hboth, hbatches⟩ := tryCandidates_simple_batches (create 2) ⟨5, 5, id, id⟩
  refine ⟨(hequal 9 _ (by decide)).2 (by simp [SetsOutputs]), (hboth 9 _ (by decide +kernel)).2
    ⟨by simp [SetsOutputs], by decide⟩,
    hbatches 9 [([2, 3, 4], ⟨0, 0, id, id⟩), ([5, 6, 7], ⟨2, 0, id, id⟩)] (by simp [SetsOutputs]) (by simp [SetsOutputs])
      (by decide)⟩

/-- An empty array: the output variables keep the values that they had. -/
theorem not_forall_tryCandidates : ¬ ∀ (n : ℕ) (s : PrimeSieve) (cs : List ℕ) (o : Outputs),
    tryCandidates n s cs o = tryCandidatesSimple n s cs o := by
  intro h
  have hnum := congrArg (Option.map fun x => x.2.numPrimes) (h 1 (create 0) [] ⟨3, 4, id, id⟩)
  cases hnum

end PrimeSieve

end ProcessNetwork
