import ProcessNetwork.SieveBatches
import Mathlib.Data.Multiset.ZeroCons

/-!
# The entries of a sieve

A call of `TryCandidate` takes each entry of the sieve to its first multiple that is not below the candidate, whatever
the order
in the heap (`skipTo_spec`), and it returns if each entry has one (`exists_skipTo`).  Calls with smaller candidates do
not change
what a call does (`FirstFrom.trans_iff`).  So the sieve is known from the primes that have been added to it: `Stands s
P c` says
that each entry of `s` is where an entry for one of `P` is after candidates up to `c`.
-/

namespace ProcessNetwork

namespace PrimeSieveEntry

variable {c c' : ℕ} {e e' f : PrimeSieveEntry}

/-- The first multiple that is not below `c`. -/
def FirstFrom (c : ℕ) (e e' : PrimeSieveEntry) : Prop :=
  ∃ n, advance^[n] e = e' ∧ c ≤ e'.multiple ∧ ∀ m < n, (advance^[m] e).multiple < c

private theorem FirstFrom.le (h : FirstFrom c e e') : c ≤ e'.multiple := by
  obtain ⟨-, -, hle, -⟩ := h
  exact hle

private theorem FirstFrom.refl (h : c ≤ e.multiple) : FirstFrom c e e :=
  ⟨0, rfl, h, fun _ hm => absurd hm (Nat.not_lt_zero _)⟩

theorem FirstFrom.unique (h : FirstFrom c e e') (h' : FirstFrom c e f) : e' = f := by
  obtain ⟨n, rfl, hle, hlt⟩ := h
  obtain ⟨m, rfl, hle', hlt'⟩ := h'
  have hnm : n = m := by
    rcases lt_trichotomy n m with h | h | h
    · exact absurd (hlt' n h) (not_lt.2 hle)
    · exact h
    · exact absurd (hlt m h) (not_lt.2 hle')
  rw [hnm]

private theorem FirstFrom.of_advance (he : e.multiple < c) (h : FirstFrom c e.advance e') : FirstFrom c e e' := by
  obtain ⟨n, rfl, hle, hlt⟩ := h
  refine ⟨n + 1, rfl, hle, fun m hm => ?_⟩
  cases m with
  | zero => exact he
  | succ m => exact hlt m (Nat.lt_of_succ_lt_succ hm)

theorem FirstFrom.exists_iff : (∃ e', FirstFrom c e e') ↔ ∃ n, c ≤ (advance^[n] e).multiple := by
  constructor
  · rintro ⟨_, n, rfl, hle, -⟩
    exact ⟨n, hle⟩
  · intro h
    classical
    exact ⟨_, Nat.find h, rfl, Nat.find_spec h, fun m hm => not_le.1 (Nat.find_min h hm)⟩

/-- It does not matter how far the entry has been advanced for a smaller candidate. -/
theorem FirstFrom.trans_iff (h : FirstFrom c f e) (hc : c ≤ c') : FirstFrom c' e e' ↔ FirstFrom c' f e' := by
  obtain ⟨n, rfl, hle, hlt⟩ := h
  constructor
  · rintro ⟨m, rfl, hle', hlt'⟩
    refine ⟨m + n, Function.iterate_add_apply _ _ _ _, hle', fun k hk => ?_⟩
    rcases lt_or_ge k n with hkn | hkn
    · exact (hlt k hkn).trans_le hc
    · have hk' := hlt' (k - n) (by omega)
      rwa [← Function.iterate_add_apply, Nat.sub_add_cancel hkn] at hk'
  · rintro ⟨m, rfl, hle', hlt'⟩
    have hnm : n ≤ m := by
      by_contra hmn
      exact absurd ((hlt m (not_le.1 hmn)).trans_le hc) (not_lt.2 hle')
    refine ⟨m - n, by rw [← Function.iterate_add_apply, Nat.sub_add_cancel hnm], hle', fun k hk => ?_⟩
    rw [← Function.iterate_add_apply]
    exact hlt' (k + n) (by omega)

end PrimeSieveEntry

namespace PrimeSieve

open PrimeSieveEntry (less strictWeak_less FirstFrom)
open Heap (IsHeap)

variable {n m c c' : ℕ} {s s' : PrimeSieve}

/-! ### The loop -/

/-- No multiple is below the one at the front. -/
theorem smallest_le (h : IsHeap less s.primeSieve) {e : PrimeSieveEntry} (he : e ∈ s.primeSieve) :
    s.smallestSieveMultiple ≤ e.multiple := by
  unfold smallestSieveMultiple
  cases hs : s.primeSieve with
  | nil =>
    rw [hs] at he
    cases he
  | cons a es =>
    rw [hs] at h he
    exact not_lt.1 (of_decide_eq_false (h.head strictWeak_less he))

/-- The front is advanced, although the heap is not one while it is. -/
theorem advanceSmallest_spec (h : IsHeap less s.primeSieve) {e : PrimeSieveEntry} {es : List PrimeSieveEntry}
    (hs : s.primeSieve = e :: es) :
    IsHeap less s.advanceSmallest.primeSieve ∧ s.advanceSmallest.maxNumPrimes = s.maxNumPrimes ∧
      s.advanceSmallest.primeSieve.Perm (e.advance :: es) := by
  rw [hs] at h
  obtain ⟨l, hl, hheap, hperm⟩ := Heap.popHeap_eq strictWeak_less e.advance (h.change_head e.advance)
  unfold advanceSmallest
  rw [hs]
  dsimp only
  rw [hl]
  refine ⟨Heap.isHeap_push strictWeak_less hheap _, rfl, (Heap.pushHeap_perm _).trans ?_⟩
  exact (List.perm_append_singleton _ _).trans (hperm.cons _)

/-- The loop takes each entry to its first multiple that is not below the candidate. -/
theorem skipTo_spec (h : IsHeap less s.primeSieve) (hskip : skipTo c n s = some s') :
    IsHeap less s'.primeSieve ∧ s'.maxNumPrimes = s.maxNumPrimes ∧
      Multiset.Rel (FirstFrom c) s.primeSieve s'.primeSieve := by
  induction n generalizing s with
  | zero => cases hskip
  | succ n ih =>
    rw [skipTo] at hskip
    split_ifs at hskip with hlt
    · cases hs : s.primeSieve with
      | nil =>
        have hsame : s.advanceSmallest = s := by
          unfold advanceSmallest
          rw [hs]
        rw [hsame] at hskip
        exact hs ▸ ih h hskip
      | cons e es =>
        obtain ⟨hheap, hmax, hperm⟩ := advanceSmallest_spec h hs
        obtain ⟨hheap', hmax', hrel⟩ := ih hheap hskip
        refine ⟨hheap', hmax'.trans hmax, ?_⟩
        rw [Multiset.coe_eq_coe.2 hperm, ← Multiset.cons_coe, Multiset.rel_cons_left] at hrel
        obtain ⟨b, bs, hb, hbs, heq⟩ := hrel
        have he : e.multiple < c := by
          rw [smallestSieveMultiple, hs] at hlt
          exact hlt
        rw [heq, ← Multiset.cons_coe]
        exact .cons (hb.of_advance he) hbs
    · obtain rfl := Option.some.inj hskip
      refine ⟨h, rfl, Multiset.rel_refl_of_refl_on fun e he => .refl ?_⟩
      exact (not_lt.1 hlt).trans (smallest_le h (Multiset.mem_coe.1 he))

private theorem skipTo_of_le (h : skipTo c n s = some s') (hnm : n ≤ m) : skipTo c m s = some s' := by
  induction n generalizing s m with
  | zero => cases h
  | succ n ih =>
    obtain ⟨m, rfl⟩ := Nat.exists_eq_succ_of_ne_zero (show m ≠ 0 by omega)
    rw [skipTo] at h ⊢
    split_ifs at h ⊢
    · exact ih h (by omega)
    · exact h

theorem tryCandidate_of_le {x : ℤ × PrimeSieve} (h : tryCandidate n s c = some x) (hnm : n ≤ m) :
    tryCandidate m s c = some x := by
  unfold tryCandidate at h ⊢
  split_ifs at h ⊢
  · exact h
  · rw [tryLoop_eq, Option.map_eq_some_iff] at h
    obtain ⟨t, ht, rfl⟩ := h
    rw [tryLoop_eq, skipTo_of_le ht hnm, Option.map_some]

section Rounds

open Classical in
/-- The number of times that an entry has to be advanced. -/
noncomputable def rounds (c : ℕ) (e : PrimeSieveEntry) : ℕ :=
  if h : ∃ n, c ≤ (PrimeSieveEntry.advance^[n] e).multiple then Nat.find h else 0

private theorem rounds_advance {e : PrimeSieveEntry} (he : e.multiple < c)
    (h : ∃ n, c ≤ (PrimeSieveEntry.advance^[n] e).multiple) :
    (∃ n, c ≤ (PrimeSieveEntry.advance^[n] e.advance).multiple) ∧ rounds c e = rounds c e.advance + 1 := by
  classical
  have hadv : ∃ n, c ≤ (PrimeSieveEntry.advance^[n] e.advance).multiple := by
    obtain ⟨n, hn⟩ := h
    cases n with
    | zero => exact absurd he (not_lt.2 hn)
    | succ n => exact ⟨n, hn⟩
  refine ⟨hadv, ?_⟩
  unfold rounds
  rw [dif_pos h, dif_pos hadv, Nat.find_eq_iff]
  refine ⟨Nat.find_spec hadv, fun m hm => ?_⟩
  cases m with
  | zero => exact not_le.2 he
  | succ m => exact Nat.find_min hadv (Nat.lt_of_succ_lt_succ hm)

/-- The loop ends if each entry has a multiple that is not below the candidate. -/
theorem exists_skipTo (h : IsHeap less s.primeSieve) (hne : s.primeSieve ≠ [])
    (hends : ∀ e ∈ s.primeSieve, ∃ e', FirstFrom c e e') : ∃ n s', skipTo c n s = some s' := by
  induction hsum : (s.primeSieve.map (rounds c)).sum using Nat.strong_induction_on generalizing s with
  | h k ih =>
    by_cases hlt : s.smallestSieveMultiple < c
    · obtain ⟨e, es, hs⟩ := List.exists_cons_of_ne_nil hne
      obtain ⟨hheap, -, hperm⟩ := advanceSmallest_spec h hs
      rw [hs] at hends
      have he : e.multiple < c := by
        rw [smallestSieveMultiple, hs] at hlt
        exact hlt
      obtain ⟨hadv, hrounds⟩ := rounds_advance he (FirstFrom.exists_iff.1 (hends e List.mem_cons_self))
      have hless : (s.advanceSmallest.primeSieve.map (rounds c)).sum < k := by
        rw [(hperm.map _).sum_eq, ← hsum, hs, List.map_cons, List.map_cons, List.sum_cons, List.sum_cons, hrounds]
        omega
      have hends' : ∀ e ∈ s.advanceSmallest.primeSieve, ∃ e', FirstFrom c e e' := by
        intro x hx
        obtain rfl | hx := List.mem_cons.1 (hperm.mem_iff.1 hx)
        · exact FirstFrom.exists_iff.2 hadv
        · exact hends x (List.mem_cons_of_mem _ hx)
      have hne' : s.advanceSmallest.primeSieve ≠ [] := fun hnil => by
        rw [hnil] at hperm
        cases hperm.symm.eq_nil
      obtain ⟨n, s', hn⟩ := ih _ hless hheap hne' hends' rfl
      exact ⟨n + 1, s', by rw [skipTo, if_pos hlt, hn]⟩
    · exact ⟨1, s, by rw [skipTo, if_neg hlt]⟩

end Rounds

/-! ### The sieve as a list of primes -/

variable {p M : ℕ} {P : List ℕ}

/-- The entry for `p` stops the candidate `c`. -/
def Hits (p c : ℕ) : Prop := ∃ e, FirstFrom c (.create p) e ∧ e.multiple = c

/-- The entry for `p` has a multiple that is not below `c`. -/
def Ends (p c : ℕ) : Prop := ∃ e, FirstFrom c (.create p) e

/-- The entry for `p` after some candidates up to `c`. -/
def StandsFor (c p : ℕ) (e : PrimeSieveEntry) : Prop := ∃ c' ≤ c, FirstFrom c' (.create p) e

/-- The entries of the sieve are those for the elements of `P`, after candidates up to `c`. -/
structure Stands (s : PrimeSieve) (P : List ℕ) (c : ℕ) : Prop where
  heap : IsHeap less s.primeSieve
  rel : Multiset.Rel (StandsFor c) P s.primeSieve

section Lists

open Classical

/-- The result of a sieve with the bound `M` and the primes `P`. -/
noncomputable def verdict (M : ℕ) (P : List ℕ) (c : ℕ) : ℤ :=
  if ∃ p ∈ P, Hits p c then 0 else if M ≠ 0 ∧ M ≤ P.length then -1 else 1

/-- The primes of the sieve after the candidate. -/
noncomputable def grow (M : ℕ) (P : List ℕ) (c : ℕ) : List ℕ := if verdict M P c = 1 then P ++ [c] else P

end Lists

private theorem StandsFor.first_iff {e e' : PrimeSieveEntry} (h : StandsFor c p e) (hc : c ≤ c') :
    FirstFrom c' e e' ↔ FirstFrom c' (.create p) e' := by
  obtain ⟨c'', hle, hfirst⟩ := h
  exact hfirst.trans_iff (hle.trans hc)

private theorem rel_comp {α β γ : Type} {r : α → β → Prop} {q : β → γ → Prop} {t : α → γ → Prop}
    (hcomp : ∀ a b d, r a b → q b d → t a d) {x : Multiset α} {y : Multiset β} {z : Multiset γ}
    (h : Multiset.Rel r x y) (h' : Multiset.Rel q y z) : Multiset.Rel t x z := by
  induction h generalizing z with
  | zero =>
    rw [Multiset.rel_zero_left] at h'
    rw [h']
    exact .zero
  | cons hab _ ih =>
    obtain ⟨d, ds, hbd, hds, rfl⟩ := Multiset.rel_cons_left.1 h'
    exact .cons (hcomp _ _ _ hab hbd) (ih hds)

theorem length_eq (h : Stands s P c) : s.primeSieve.length = P.length := by
  have hcard := Multiset.card_eq_card_of_rel h.rel
  rwa [Multiset.coe_card, Multiset.coe_card, eq_comm] at hcard

/-- The entries at their first multiples not below `c`. -/
theorem Stands.of_first (hheap : IsHeap less s.primeSieve)
    (h : Multiset.Rel (fun p e => FirstFrom c (.create p) e) P s.primeSieve) : Stands s P c :=
  ⟨hheap, h.mono fun _ _ _ _ hfirst => ⟨c, le_rfl, hfirst⟩⟩

theorem Stands.mono (h : Stands s P c) (hc : c ≤ c') : Stands s P c' := by
  refine ⟨h.heap, h.rel.mono ?_⟩
  rintro p - e - ⟨c'', hle, hfirst⟩
  exact ⟨c'', hle.trans hc, hfirst⟩

theorem Stands.insert (h : Stands s P c) : Stands (s.insert c) (P ++ [c]) c := by
  refine ⟨Heap.isHeap_push strictWeak_less h.heap _, ?_⟩
  have hperm : (s.insert c).primeSieve.Perm (.create c :: s.primeSieve) :=
    (Heap.pushHeap_perm _).trans (List.perm_append_singleton _ _)
  rw [Multiset.coe_eq_coe.2 hperm, Multiset.coe_eq_coe.2 (List.perm_append_singleton c P), ← Multiset.cons_coe,
    ← Multiset.cons_coe]
  exact .cons ⟨0, Nat.zero_le _, .refl (Nat.zero_le _)⟩ h.rel

theorem stands_create (M : ℕ) : Stands (create M) [] 0 :=
  ⟨fun i hi => (by cases hi), .zero⟩

/-- The candidate is stopped at the front of the heap. -/
theorem exists_hits_iff (hheap : IsHeap less s.primeSieve) (hne : s.primeSieve ≠ [])
    (h : Multiset.Rel (fun p e => FirstFrom c (.create p) e) P s.primeSieve) :
    (∃ p ∈ P, Hits p c) ↔ s.smallestSieveMultiple ≤ c := by
  constructor
  · rintro ⟨p, hp, e, he, rfl⟩
    obtain ⟨e', hmem, he'⟩ := Multiset.exists_mem_of_rel_of_mem h (Multiset.mem_coe.2 hp)
    rw [he.unique he']
    exact smallest_le hheap (Multiset.mem_coe.1 hmem)
  · intro hle
    obtain ⟨e, es, hs⟩ := List.exists_cons_of_ne_nil hne
    have hroot : s.smallestSieveMultiple = e.multiple := by rw [smallestSieveMultiple, hs]
    have he : e ∈ (s.primeSieve : Multiset PrimeSieveEntry) := by
      rw [hs]
      exact List.mem_cons_self
    obtain ⟨p, hp, hfirst⟩ := Multiset.exists_mem_of_rel_of_mem (Multiset.rel_flip.2 h) he
    exact ⟨p, Multiset.mem_coe.1 hp, e, hfirst, le_antisymm (hroot ▸ hle) hfirst.le⟩

/-- What a call does, in terms of the primes. -/
theorem tryCandidate_spec {r : ℤ} (h : Stands s P c) (hc : c ≤ c') (ht : tryCandidate n s c' = some (r, s')) :
    (∀ p ∈ P, Ends p c') ∧ r = verdict s.maxNumPrimes P c' ∧ s'.maxNumPrimes = s.maxNumPrimes ∧
      Stands s' (grow s.maxNumPrimes P c') c' := by
  unfold tryCandidate at ht
  by_cases hnil : s.primeSieve = []
  · rw [if_pos hnil] at ht
    obtain ⟨rfl, rfl⟩ := Prod.mk.inj (Option.some.inj ht)
    have hP : P = [] := List.length_eq_zero_iff.1 (by rw [← length_eq h, hnil, List.length_nil])
    subst hP
    have hverdict : verdict s.maxNumPrimes [] c' = 1 := by
      unfold verdict
      rw [if_neg (by simp), if_neg (by simp)]
    refine ⟨fun p hp => (by cases hp), hverdict.symm, rfl, ?_⟩
    rw [grow, if_pos hverdict]
    exact Stands.insert ⟨h.heap, by rw [hnil]; exact .zero⟩
  · rw [if_neg hnil, tryLoop_eq, Option.map_eq_some_iff] at ht
    obtain ⟨t, hskip, ht⟩ := ht
    obtain ⟨hheap, hmax, hrel⟩ := skipTo_spec h.heap hskip
    have hfirst : Multiset.Rel (fun p e => FirstFrom c' (.create p) e) P t.primeSieve :=
      rel_comp (fun p e e' hp he => (hp.first_iff hc).1 he) h.rel hrel
    have hends : ∀ p ∈ P, Ends p c' := fun p hp =>
      (Multiset.exists_mem_of_rel_of_mem hfirst hp).imp fun e he => he.2
    have hstands : Stands t P c' := .of_first hheap hfirst
    have hlength := length_eq hstands
    have hfull : t.full = true ↔ s.maxNumPrimes ≠ 0 ∧ s.maxNumPrimes ≤ P.length := by
      rw [full, decide_eq_true_iff, hmax, hlength]
    have hhits : (∃ p ∈ P, Hits p c') ↔ ¬ c' < t.smallestSieveMultiple := by
      rw [not_lt]
      exact exists_hits_iff hheap (fun hnil' => hnil (List.length_eq_zero_iff.1
        (by rw [← length_skipTo hskip, hnil', List.length_nil]))) hfirst
    refine ⟨hends, ?_⟩
    unfold grow verdict
    by_cases hlt : c' < t.smallestSieveMultiple
    · have hno : ¬ ∃ p ∈ P, Hits p c' := fun hhit => hhits.1 hhit hlt
      rw [if_pos hlt] at ht
      rw [if_neg hno]
      by_cases hf : t.full = true
      · rw [if_pos hf] at ht
        obtain ⟨rfl, rfl⟩ := Prod.mk.inj ht
        rw [if_pos (hfull.1 hf), if_neg (by decide)]
        exact ⟨rfl, hmax, hstands⟩
      · rw [if_neg hf] at ht
        obtain ⟨rfl, rfl⟩ := Prod.mk.inj ht
        rw [if_neg (fun hc => hf (hfull.2 hc)), if_pos rfl]
        exact ⟨rfl, hmax, hstands.insert⟩
    · rw [if_neg hlt] at ht
      obtain ⟨rfl, rfl⟩ := Prod.mk.inj ht
      rw [if_pos (hhits.2 hlt), if_neg (by decide)]
      exact ⟨rfl, hmax, hstands⟩

/-- A call returns if each entry has a multiple that is not below the candidate. -/
theorem exists_tryCandidate (h : Stands s P c) (hc : c ≤ c') (hends : ∀ p ∈ P, Ends p c') :
    ∃ n, ∀ m, n ≤ m → ∃ x, tryCandidate m s c' = some x := by
  unfold tryCandidate
  by_cases hnil : s.primeSieve = []
  · exact ⟨0, fun m _ => ⟨_, if_pos hnil⟩⟩
  · have hstep : ∀ e ∈ s.primeSieve, ∃ e', FirstFrom c' e e' := by
      intro e he
      obtain ⟨p, hp, hstands⟩ := Multiset.exists_mem_of_rel_of_mem (Multiset.rel_flip.2 h.rel) (Multiset.mem_coe.2 he)
      obtain ⟨e', he'⟩ := hends p (Multiset.mem_coe.1 hp)
      exact ⟨e', (hstands.first_iff hc).2 he'⟩
    obtain ⟨n, t, ht⟩ := exists_skipTo h.heap hnil hstep
    refine ⟨n, fun m hnm => ?_⟩
    rw [if_neg hnil, tryLoop_eq, skipTo_of_le ht hnm, Option.map_some]
    exact ⟨_, rfl⟩

/-! ### Runs -/

/-- The results of a sieve with the bound `M` and the primes `P`, and its primes after the run. -/
noncomputable def sieveRun (M : ℕ) : List ℕ → List ℕ → List ℤ × List ℕ
  | P, [] => ([], P)
  | P, c :: cs => (verdict M P c :: (sieveRun M (grow M P c) cs).1, (sieveRun M (grow M P c) cs).2)

/-- Each entry has a multiple that is not below the candidate, whenever one is tried. -/
def RunEnds (M : ℕ) : List ℕ → List ℕ → Prop
  | _, [] => True
  | P, c :: cs => (∀ p ∈ P, Ends p c) ∧ RunEnds M (grow M P c) cs

variable {cs : List ℕ}

theorem tryAll_spec {rs : List ℤ} (h : Stands s P c) (hcs : (c :: cs).Pairwise (· ≤ ·))
    (ht : tryAll n s cs = some (rs, s')) :
    RunEnds s.maxNumPrimes P cs ∧ rs = (sieveRun s.maxNumPrimes P cs).1 ∧ s'.maxNumPrimes = s.maxNumPrimes ∧
      Stands s' (sieveRun s.maxNumPrimes P cs).2 ((c :: cs).getLast (List.cons_ne_nil _ _)) := by
  induction cs generalizing s P c rs with
  | nil =>
    obtain ⟨rfl, rfl⟩ := Prod.mk.inj (Option.some.inj ht)
    exact ⟨trivial, rfl, rfl, h⟩
  | cons c' cs ih =>
    obtain ⟨⟨r, t⟩, hr, ht⟩ := Option.bind_eq_some_iff.1 ht
    obtain ⟨⟨rs', t'⟩, ht', heq⟩ := Option.map_eq_some_iff.1 ht
    obtain ⟨rfl, rfl⟩ := Prod.mk.inj heq
    obtain ⟨hle, hcs⟩ := List.pairwise_cons.1 hcs
    obtain ⟨hends, rfl, hmax, hstands⟩ := tryCandidate_spec h (hle c' List.mem_cons_self) hr
    obtain ⟨hends', rfl, hmax', hstands'⟩ := ih hstands hcs ht'
    rw [hmax] at hends' hmax' hstands'
    refine ⟨⟨hends, hends'⟩, by rw [hmax]; rfl, hmax', ?_⟩
    rw [List.getLast_cons (List.cons_ne_nil _ _)]
    exact hstands'

theorem exists_tryAll (h : Stands s P c) (hcs : (c :: cs).Pairwise (· ≤ ·)) (hends : RunEnds s.maxNumPrimes P cs) :
    ∃ n, ∀ m, n ≤ m → ∃ x, tryAll m s cs = some x := by
  induction cs generalizing s P c with
  | nil => exact ⟨0, fun m _ => ⟨_, rfl⟩⟩
  | cons c' cs ih =>
    obtain ⟨hle, hcs⟩ := List.pairwise_cons.1 hcs
    obtain ⟨hends, hends'⟩ := hends
    obtain ⟨n, hn⟩ := exists_tryCandidate h (hle c' List.mem_cons_self) hends
    obtain ⟨⟨r, t⟩, hr⟩ := hn n le_rfl
    obtain ⟨-, -, hmax, hstands⟩ := tryCandidate_spec h (hle c' List.mem_cons_self) hr
    obtain ⟨n', hn'⟩ := ih hstands hcs (hmax ▸ hends')
    refine ⟨max n n', fun m hm => ?_⟩
    obtain ⟨x, hx⟩ := hn' m (le_trans (le_max_right _ _) hm)
    rw [tryAll, tryCandidate_of_le hr (le_trans (le_max_left _ _) hm), Option.bind_some, hx, Option.map_some]
    exact ⟨_, rfl⟩

end PrimeSieve

end ProcessNetwork
