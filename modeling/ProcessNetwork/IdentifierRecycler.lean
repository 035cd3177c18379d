import ProcessNetwork.Lib.Heap
import ProcessNetwork.Lib.Machine

/-!
# `IdentifierRecycler`

The class template of `IdentifierRecycler.h` for any type that acts like an unsigned integer type: `++` adds one, and
wraps at
the maximum if there is one.  `Free` is `none` where its loop reads the front of an empty `freeids`.

`Ids` is the recycler with the set of ids that its user holds, and `Sound` says that the held and the free ids are the ids
below `numalloc`.  An operation keeps it, and does what it should, exactly if it meets `Meets` (`does_iff_meets`).
-/

namespace ProcessNetwork

/-- A type that acts like an unsigned integer type. -/
class UnsignedLike (T : Type) extends LinearOrder T, Zero T where
  toNat : T → ℕ
  succ : T → T
  pred : T → T
  toNat_lt_toNat : ∀ {x y : T}, toNat x < toNat y ↔ x < y
  toNat_zero : toNat 0 = 0
  toNat_succ : ∀ {x : T}, ¬ IsMax x → toNat (succ x) = toNat x + 1
  succ_of_isMax : ∀ {x : T}, IsMax x → succ x = 0
  succ_pred : ∀ {x : T}, 0 < x → succ (pred x) = x

-- other types have their own zero and their own order
attribute [instance (50)] UnsignedLike.toZero UnsignedLike.toLinearOrder

instance : UnsignedLike ℕ where
  toNat := id
  succ := Nat.succ
  pred := Nat.pred
  toNat_lt_toNat := Iff.rfl
  toNat_zero := rfl
  toNat_succ _ := rfl
  succ_of_isMax h := absurd h (not_isMax _)
  succ_pred h := Nat.succ_pred_eq_of_pos h

/-- An unsigned integer type with `n + 1` values. -/
instance (n : ℕ) : UnsignedLike (Fin (n + 1)) where
  toNat := Fin.val
  succ x := x + 1
  pred x := x - 1
  toNat_lt_toNat := Iff.rfl
  toNat_zero := rfl
  toNat_succ h := Fin.val_add_one_of_lt (lt_of_le_of_ne (Fin.le_last _) fun hx => h (hx ▸ fun y _ => Fin.le_last y))
  succ_of_isMax h := by
    rw [show _ = Fin.last n from le_antisymm (Fin.le_last _) (h (Fin.le_last _))]
    exact Fin.last_add_one n
  succ_pred _ := sub_add_cancel _ _

namespace UnsignedLike

variable {T : Type} [UnsignedLike T] {x y : T}

private theorem zero_le (x : T) : 0 ≤ x := by
  rw [← not_lt, ← toNat_lt_toNat, toNat_zero]
  exact Nat.not_lt_zero _

private theorem pos_of_lt (h : x < y) : 0 < y := lt_of_le_of_lt (zero_le x) h

private theorem lt_succ_iff (hx : ¬ IsMax x) : y < succ x ↔ y ≤ x := by
  rw [← toNat_lt_toNat, toNat_succ hx, Nat.lt_succ_iff, ← not_lt, toNat_lt_toNat, not_lt]

private theorem not_isMax_pred (h : 0 < x) : ¬ IsMax (pred x) := fun hmax => by
  have hzero := succ_of_isMax hmax
  rw [succ_pred h] at hzero
  exact h.ne' hzero

private theorem lt_iff_le_pred (h : 0 < x) : y < x ↔ y ≤ pred x := by
  rw [← lt_succ_iff (not_isMax_pred h), succ_pred h]

private theorem pred_lt (h : 0 < x) : pred x < x := (lt_iff_le_pred h).2 le_rfl

private theorem succ_pos (hx : ¬ IsMax x) : 0 < succ x := pos_of_lt ((lt_succ_iff hx).2 le_rfl)

private theorem pred_succ (hx : ¬ IsMax x) : pred (succ x) = x :=
  le_antisymm ((lt_succ_iff hx).1 (pred_lt (succ_pos hx))) ((lt_iff_le_pred (succ_pos hx)).1 ((lt_succ_iff hx).2 le_rfl))

end UnsignedLike

/-- The comparison of the heap, `operator<`. -/
def lessId {T : Type} [LinearOrder T] (a b : T) : Bool := decide (a < b)

private theorem strictWeak_lessId {T : Type} [LinearOrder T] : Heap.StrictWeak (lessId (T := T)) where
  asymm h := decide_eq_false (of_decide_eq_true h).not_gt
  trans h h' := decide_eq_false
    (not_lt.2 ((not_lt.1 (of_decide_eq_false h')).trans (not_lt.1 (of_decide_eq_false h))))

structure IdentifierRecycler (T : Type) where
  numalloc : T
  freeids : List T

namespace IdentifierRecycler

open UnsignedLike (succ pred)
open Heap (pushHeap popHeap makeHeap IsHeap)

variable {T : Type} [UnsignedLike T]

def init : IdentifierRecycler T := ⟨0, []⟩

/-- `Alloc()`: the id that it returns, and the recycler after it. -/
def alloc (r : IdentifierRecycler T) : T × IdentifierRecycler T :=
  match r.freeids with
  | [] => (r.numalloc, { r with numalloc := succ r.numalloc })
  | id :: rest => (id, { r with freeids := (popHeap lessId (id :: rest)).dropLast })

/-- The loop of `Alloc(id)`: the ids below `id` become free. -/
def fill (id numalloc : T) (freeids : List T) : T × List T :=
  if numalloc < id then fill id (succ numalloc) (pushHeap lessId (freeids ++ [numalloc])) else (numalloc, freeids)
termination_by UnsignedLike.toNat id - UnsignedLike.toNat numalloc
decreasing_by
  rename_i h
  have hlt := UnsignedLike.toNat_lt_toNat.2 h
  rw [UnsignedLike.toNat_succ (not_isMax_of_lt h)]
  omega

/-- `Alloc(id)`. -/
def allocId (r : IdentifierRecycler T) (id : T) : Bool × IdentifierRecycler T :=
  if id < r.numalloc then
    if id ∈ r.freeids then (true, { r with freeids := makeHeap lessId (r.freeids.erase id) }) else (false, r)
  else (true, ⟨succ (fill id r.numalloc r.freeids).1, (fill id r.numalloc r.freeids).2⟩)

/-- The loop of `Free`. -/
def trim (numalloc : T) : List T → Option (IdentifierRecycler T)
  | [] => none
  | id :: rest =>
    if id = pred numalloc then trim (pred numalloc) (popHeap lessId (id :: rest)).dropLast
    else some ⟨numalloc, id :: rest⟩
termination_by freeids => freeids.length
decreasing_by
  rw [List.length_dropLast, (Heap.popHeap_perm _).length_eq]
  exact Nat.lt_succ_self _

/-- `Free(id)`. -/
def free (r : IdentifierRecycler T) (id : T) : Option (IdentifierRecycler T) :=
  trim r.numalloc (pushHeap lessId (r.freeids ++ [id]))

/-! ### The ids below `numalloc` -/

/-- The held and the free ids are the ids below `numalloc`, each once, and the free ones are in a heap. -/
structure Splits (r : IdentifierRecycler T) (allocated : Finset T) : Prop where
  mem : ∀ id, id ∈ allocated ∨ id ∈ r.freeids ↔ id < r.numalloc
  disjoint : ∀ id ∈ allocated, id ∉ r.freeids
  nodup : r.freeids.Nodup
  heap : IsHeap lessId r.freeids

variable {r : IdentifierRecycler T} {allocated : Finset T} {id : T}

private theorem Splits.le_head {rest : List T} (h : Splits r allocated) (hr : r.freeids = id :: rest) {x : T}
    (hx : x ∈ r.freeids) : x ≤ id := by
  have hheap := h.heap
  rw [hr] at hheap hx
  exact not_lt.1 (of_decide_eq_false (hheap.head strictWeak_lessId hx))

/-- The front of `freeids` is taken out. -/
theorem Splits.pop {rest : List T} (h : Splits r allocated) (hr : r.freeids = id :: rest) :
    (popHeap lessId (id :: rest)).dropLast.Perm rest ∧ IsHeap lessId (popHeap lessId (id :: rest)).dropLast := by
  have hheap := h.heap
  rw [hr] at hheap
  obtain ⟨l, hl, hl', hperm⟩ := Heap.popHeap_eq strictWeak_lessId id fun i hi h0 h1 => hheap i hi h0 (Nat.zero_le _)
  rw [hl, List.dropLast_concat]
  exact ⟨hperm, hl'⟩

/-- The end of the range is held. -/
theorem Splits.extend {n : T} {freeids : List T} (h : Splits ⟨n, freeids⟩ allocated) (hn : ¬ IsMax n) :
    n ∉ allocated ∧ n ∉ freeids ∧ Splits ⟨succ n, freeids⟩ (insert n allocated) := by
  have hfree : n ∉ freeids := fun hmem => lt_irrefl n ((h.mem n).1 (.inr hmem))
  refine ⟨fun hmem => lt_irrefl n ((h.mem n).1 (.inl hmem)), hfree, ⟨?_, ?_, h.nodup, h.heap⟩⟩
  · intro id
    rw [UnsignedLike.lt_succ_iff hn, le_iff_eq_or_lt, ← h.mem id, Finset.mem_insert, or_assoc]
  · intro id hid
    obtain rfl | hid := Finset.mem_insert.1 hid
    · exact hfree
    · exact h.disjoint id hid

/-- The front is held. -/
theorem Splits.reuse {rest : List T} (h : Splits r allocated) (hr : r.freeids = id :: rest) :
    id ∉ allocated ∧
      Splits { r with freeids := (popHeap lessId (id :: rest)).dropLast } (insert id allocated) := by
  obtain ⟨hperm, hheap⟩ := h.pop hr
  have hnodup := h.nodup
  rw [hr, List.nodup_cons] at hnodup
  have hmem (x : T) : x ∈ r.freeids ↔ x = id ∨ x ∈ rest := by rw [hr, List.mem_cons]
  refine ⟨fun hid => h.disjoint id hid ((hmem id).2 (.inl rfl)), ⟨?_, ?_, hperm.nodup_iff.2 hnodup.2, hheap⟩⟩
  · intro x
    rw [← h.mem x, hmem x, hperm.mem_iff, Finset.mem_insert, or_assoc, or_left_comm]
  · intro x hx hfree
    rw [hperm.mem_iff] at hfree
    obtain rfl | hx := Finset.mem_insert.1 hx
    · exact hnodup.1 hfree
    · exact h.disjoint x hx ((hmem x).2 (.inr hfree))

private theorem Splits.fill {n : T} {freeids : List T} (h : Splits ⟨n, freeids⟩ allocated) (hle : n ≤ id) :
    (fill id n freeids).1 = id ∧ Splits ⟨id, (IdentifierRecycler.fill id n freeids).2⟩ allocated := by
  induction n, freeids using fill.induct id with
  | case1 n freeids hlt ih =>
    rw [IdentifierRecycler.fill, if_pos hlt]
    have hn := not_isMax_of_lt hlt
    obtain ⟨hheld, hfree, hext⟩ := h.extend hn
    have hperm : (pushHeap lessId (freeids ++ [n])).Perm (n :: freeids) :=
      (Heap.pushHeap_perm _).trans List.perm_append_comm
    refine ih ⟨?_, ?_, ?_, Heap.isHeap_push strictWeak_lessId h.heap n⟩ (not_lt.1 fun hgt => ?_)
    · intro x
      rw [← hext.mem x, hperm.mem_iff, List.mem_cons, Finset.mem_insert, or_assoc, or_left_comm]
    · intro x hx hmem
      rw [hperm.mem_iff, List.mem_cons] at hmem
      obtain rfl | hmem := hmem
      · exact hheld hx
      · exact h.disjoint x hx hmem
    · rw [hperm.nodup_iff, List.nodup_cons]
      exact ⟨hfree, h.nodup⟩
    · exact hlt.not_ge ((UnsignedLike.lt_succ_iff hn).1 hgt)
  | case2 n freeids hge =>
    rw [IdentifierRecycler.fill, if_neg hge]
    obtain rfl := le_antisymm hle (not_lt.1 hge)
    exact ⟨rfl, h⟩

/-- A free id is taken from the middle. -/
theorem Splits.take (h : Splits r allocated) (hid : id ∈ r.freeids) :
    id ∉ allocated ∧ Splits { r with freeids := makeHeap lessId (r.freeids.erase id) } (insert id allocated) := by
  have hperm : (makeHeap lessId (r.freeids.erase id)).Perm (r.freeids.erase id) := Heap.makeHeap_perm _
  have hmem (x : T) : x ∈ makeHeap lessId (r.freeids.erase id) ↔ x ≠ id ∧ x ∈ r.freeids := by
    rw [hperm.mem_iff, h.nodup.mem_erase_iff]
  refine ⟨fun hheld => h.disjoint id hheld hid, ⟨?_, ?_, hperm.nodup_iff.2 (h.nodup.erase id),
    Heap.isHeap_makeHeap strictWeak_lessId _⟩⟩
  · intro x
    rw [← h.mem x, hmem x, Finset.mem_insert]
    by_cases hx : x = id
    · subst hx
      simp [hid]
    · simp [hx]
  · intro x hx hfree
    obtain ⟨hne, hfree⟩ := (hmem x).1 hfree
    exact h.disjoint x ((Finset.mem_insert.1 hx).resolve_left hne) hfree

/-- The id goes back to the heap. -/
theorem Splits.giveBack (h : Splits r allocated) (hid : id ∈ allocated) :
    Splits { r with freeids := pushHeap lessId (r.freeids ++ [id]) } (allocated.erase id) := by
  have hperm : (pushHeap lessId (r.freeids ++ [id])).Perm (id :: r.freeids) :=
    (Heap.pushHeap_perm _).trans List.perm_append_comm
  refine ⟨?_, ?_, ?_, Heap.isHeap_push strictWeak_lessId h.heap id⟩
  · intro x
    rw [← h.mem x, hperm.mem_iff, List.mem_cons, Finset.mem_erase]
    by_cases hx : x = id
    · subst hx
      simp [hid]
    · simp [hx]
  · intro x hx hfree
    obtain ⟨hne, hx⟩ := Finset.mem_erase.1 hx
    rw [hperm.mem_iff, List.mem_cons] at hfree
    exact h.disjoint x hx (hfree.resolve_left hne)
  · rw [hperm.nodup_iff, List.nodup_cons]
    exact ⟨h.disjoint id hid, h.nodup⟩

/-- The loop of `Free` runs into the empty heap if no free id is below a held one, and stops below the last held one
otherwise. -/
theorem Splits.trim {n : T} {freeids : List T} (h : Splits ⟨n, freeids⟩ allocated) :
    (IdentifierRecycler.trim n freeids = none → ∀ x ∈ freeids, ∀ y ∈ allocated, y < x) ∧
      ∀ r', IdentifierRecycler.trim n freeids = some r' →
        (∃ x ∈ freeids, ∃ y ∈ allocated, x < y) ∧ Splits r' allocated ∧ pred r'.numalloc ∈ allocated := by
  induction n, freeids using trim.induct with
  | case1 n =>
    rw [IdentifierRecycler.trim]
    exact ⟨fun _ x hx => (by cases hx), fun r' hr' => (by cases hr')⟩
  | case2 n rest ih =>
    have hn : 0 < n := UnsignedLike.pos_of_lt ((h.mem (pred n)).1 (.inr List.mem_cons_self))
    obtain ⟨hperm, hheap⟩ := h.pop rfl
    have hnodup := List.nodup_cons.1 h.nodup
    have hsplits : Splits ⟨pred n, (popHeap lessId (pred n :: rest)).dropLast⟩ allocated := by
      refine ⟨?_, ?_, hperm.nodup_iff.2 hnodup.2, hheap⟩
      · intro x
        have hx := h.mem x
        rw [List.mem_cons, UnsignedLike.lt_iff_le_pred hn, le_iff_eq_or_lt] at hx
        rw [hperm.mem_iff]
        by_cases hlast : x = pred n
        · subst hlast
          exact iff_of_false (not_or_intro (fun hheld => h.disjoint _ hheld List.mem_cons_self) hnodup.1) (lt_irrefl _)
        · simpa [hlast] using hx
      · intro x hx hfree
        exact h.disjoint x hx (List.mem_cons_of_mem _ (hperm.mem_iff.1 hfree))
    rw [IdentifierRecycler.trim, if_pos rfl]
    obtain ⟨hnone, hsome⟩ := ih hsplits
    constructor
    · intro htrim x hx y hy
      obtain rfl | hx := List.mem_cons.1 hx
      · refine lt_of_le_of_ne ((UnsignedLike.lt_iff_le_pred hn).1 ((h.mem y).1 (.inl hy))) ?_
        rintro rfl
        exact h.disjoint _ hy List.mem_cons_self
      · exact hnone htrim x (hperm.mem_iff.2 hx) y hy
    · intro r' htrim
      obtain ⟨⟨x, hx, hbelow⟩, hr'⟩ := hsome r' htrim
      exact ⟨⟨x, List.mem_cons_of_mem _ (hperm.mem_iff.1 hx), hbelow⟩, hr'⟩
  | case3 n id rest hne =>
    rw [IdentifierRecycler.trim, if_neg hne]
    refine ⟨fun hnone => (by cases hnone), ?_⟩
    intro r' hr'
    obtain rfl := Option.some.inj hr'
    have hid : id < n := (h.mem id).1 (.inr List.mem_cons_self)
    have hn := UnsignedLike.pos_of_lt hid
    have hlt : id < pred n := lt_of_le_of_ne ((UnsignedLike.lt_iff_le_pred hn).1 hid) hne
    have hlast : pred n ∈ allocated :=
      ((h.mem (pred n)).2 (UnsignedLike.pred_lt hn)).resolve_right fun hfree => (h.le_head rfl hfree).not_gt hlt
    exact ⟨⟨id, List.mem_cons_self, pred n, hlast, hlt⟩, h, hlast⟩

end IdentifierRecycler

/-! ### Runs -/

open IdentifierRecycler UnsignedLike
open Heap (pushHeap popHeap)

variable {T : Type} [UnsignedLike T]

/-- The recycler, and the ids that its user holds. -/
structure Ids (T : Type) where
  recycler : IdentifierRecycler T
  allocated : Finset T

inductive IdAct (T : Type) where
  | alloc
  | allocId (id : T)
  | free (id : T)

/-- `Free` is called on held ids only. -/
def Ids.next (s : Ids T) : IdAct T → Option (Ids T)
  | .alloc => some ⟨s.recycler.alloc.2, insert s.recycler.alloc.1 s.allocated⟩
  | .allocId id => some ⟨(s.recycler.allocId id).2,
      if (s.recycler.allocId id).1 = true then insert id s.allocated else s.allocated⟩
  | .free id => if id ∈ s.allocated then (s.recycler.free id).map fun r => ⟨r, s.allocated.erase id⟩ else none

def recyclerMachine (T : Type) [UnsignedLike T] : Machine (Ids T) (IdAct T) where
  init s := s = ⟨.init, ∅⟩
  next := Ids.next

namespace Ids

variable {s s' : Ids T} {l : IdAct T} {id : T}

/-- The held and the free ids are the ids below `numalloc`, and the last of them is held. -/
structure Sound (s : Ids T) : Prop extends Splits s.recycler s.allocated where
  top : 0 < s.recycler.numalloc → pred s.recycler.numalloc ∈ s.allocated

/-- A call of `Free` leaves a free id below one that is still held, and the maximum of the type is not handed out. -/
def Meets (s : Ids T) : IdAct T → Prop
  | .alloc => s.recycler.freeids = [] → ¬ IsMax s.recycler.numalloc
  | .allocId id => ¬ IsMax id
  | .free id => ∃ x, (x = id ∨ x ∈ s.recycler.freeids) ∧ ∃ y ∈ s.allocated, y ≠ id ∧ x < y

/-- What an operation should do. -/
def Does (s : Ids T) : IdAct T → Prop
  | .alloc => s.recycler.alloc.1 ∉ s.allocated ∧ ∃ s', s.next .alloc = some s' ∧ s'.Sound
  | .allocId id => ((s.recycler.allocId id).1 = true ↔ id ∉ s.allocated) ∧ ∃ s', s.next (.allocId id) = some s' ∧ s'.Sound
  | .free id => id ∈ s.allocated → ∃ r, s.recycler.free id = some r ∧ Sound ⟨r, s.allocated.erase id⟩

private theorem sound_init : Sound (⟨.init, ∅⟩ : Ids T) where
  mem id := by simp [IdentifierRecycler.init, not_lt.2 (zero_le id)]
  disjoint id hid := absurd hid (Finset.notMem_empty id)
  nodup := List.nodup_nil
  heap i hi := by cases hi
  top h := absurd h (lt_irrefl _)

/-- No sound state holds the maximum with the end of the range wrapped to zero. -/
private theorem not_sound_wrap {n : T} {freeids : List T} {allocated : Finset T} (hn : IsMax n) :
    ¬ Sound (⟨⟨succ n, freeids⟩, insert n allocated⟩ : Ids T) := by
  intro h
  have hlt := (h.mem n).1 (.inl (Finset.mem_insert_self _ _))
  rw [succ_of_isMax hn] at hlt
  exact (zero_le n).not_gt hlt

private theorem sound_extend {n : T} {freeids : List T} {allocated : Finset T} (h : Splits ⟨n, freeids⟩ allocated)
    (hn : ¬ IsMax n) : Sound (⟨⟨succ n, freeids⟩, insert n allocated⟩ : Ids T) where
  toSplits := (h.extend hn).2.2
  top _ := by
    rw [pred_succ hn]
    exact Finset.mem_insert_self _ _

private theorem Sound.alloc_iff (h : Sound s) : s.Does .alloc ↔ s.Meets .alloc := by
  obtain ⟨⟨n, freeids⟩, allocated⟩ := s
  cases freeids with
  | nil =>
    constructor
    · rintro ⟨-, s', hs', hsound⟩ - hmax
      obtain rfl := Option.some.inj hs'
      exact not_sound_wrap hmax hsound
    · intro hmeets
      exact ⟨(h.toSplits.extend (hmeets rfl)).1, _, rfl, sound_extend h.toSplits (hmeets rfl)⟩
  | cons id rest =>
    refine iff_of_true ?_ fun hnil => (by cases hnil)
    obtain ⟨hfresh, hsplits⟩ := h.toSplits.reuse rfl
    exact ⟨hfresh, _, rfl, hsplits, fun hpos => Finset.mem_insert_of_mem (h.top hpos)⟩

private theorem Sound.allocId_iff (h : Sound s) : s.Does (.allocId id) ↔ s.Meets (.allocId id) := by
  obtain ⟨⟨n, freeids⟩, allocated⟩ := s
  unfold Does next allocId
  dsimp only
  by_cases hlt : id < n
  · refine iff_of_true ?_ (not_isMax_of_lt hlt)
    rw [if_pos hlt]
    by_cases hfree : id ∈ freeids
    · obtain ⟨hfresh, hsplits⟩ := h.toSplits.take hfree
      rw [if_pos hfree, if_pos rfl]
      exact ⟨iff_of_true rfl hfresh, _, rfl, hsplits, fun hpos => Finset.mem_insert_of_mem (h.top hpos)⟩
    · have hheld := ((h.mem id).2 hlt).resolve_right hfree
      rw [if_neg hfree, if_neg Bool.false_ne_true]
      exact ⟨iff_of_false Bool.false_ne_true (not_not.2 hheld), _, rfl, h⟩
  · obtain ⟨hend, hsplits⟩ := h.toSplits.fill (not_lt.1 hlt)
    have hfresh : id ∉ allocated := fun hheld => hlt ((h.mem id).1 (.inl hheld))
    rw [if_neg hlt, if_pos rfl, hend]
    constructor
    · rintro ⟨-, s', hs', hsound⟩ hmax
      obtain rfl := Option.some.inj hs'
      exact not_sound_wrap hmax hsound
    · intro hmeets
      exact ⟨iff_of_true rfl hfresh, _, rfl, sound_extend hsplits hmeets⟩

private theorem Sound.free_iff (h : Sound s) (hid : id ∈ s.allocated) : s.Does (.free id) ↔ s.Meets (.free id) := by
  obtain ⟨⟨n, freeids⟩, allocated⟩ := s
  have hperm : (pushHeap lessId (freeids ++ [id])).Perm (id :: freeids) :=
    (Heap.pushHeap_perm _).trans List.perm_append_comm
  obtain ⟨hnone, hsome⟩ := (h.toSplits.giveBack hid).trim
  constructor
  · intro hdoes
    obtain ⟨r, hr, -⟩ := hdoes hid
    obtain ⟨⟨x, hx, y, hy, hlt⟩, -⟩ := hsome r hr
    rw [hperm.mem_iff, List.mem_cons] at hx
    rw [Finset.mem_erase] at hy
    exact ⟨x, hx, y, hy.2, hy.1, hlt⟩
  · rintro ⟨x, hx, y, hy, hne, hlt⟩ -
    cases hr : IdentifierRecycler.trim n (pushHeap lessId (freeids ++ [id])) with
    | none =>
      have hgt := hnone hr x (hperm.mem_iff.2 (List.mem_cons.2 hx)) y (Finset.mem_erase.2 ⟨hne, hy⟩)
      exact absurd hgt hlt.not_gt
    | some r =>
      obtain ⟨-, hsplits, htop⟩ := hsome r hr
      exact ⟨r, hr, hsplits, fun _ => htop⟩

private theorem Sound.next (h : Sound s) (hmeets : s.Meets l) (hn : s.next l = some s') : Sound s' := by
  cases l with
  | alloc =>
    obtain ⟨-, t, ht, hsound⟩ := h.alloc_iff.2 hmeets
    exact Option.some.inj (hn.symm.trans ht) ▸ hsound
  | allocId id =>
    obtain ⟨-, t, ht, hsound⟩ := h.allocId_iff.2 hmeets
    exact Option.some.inj (hn.symm.trans ht) ▸ hsound
  | free id =>
    dsimp only [Ids.next] at hn
    split_ifs at hn with hid
    obtain ⟨r, hr, hsound⟩ := (h.free_iff hid).2 hmeets hid
    rw [hr] at hn
    exact Option.some.inj hn ▸ hsound

end Ids

/-- As long as the calls meet the condition the held and the free ids split the range, and a call does what it should exactly
if it meets the condition too. -/
theorem ids_split_range {s : Ids T} (h : (recyclerMachine T).ReachableBy Ids.Meets s) :
    s.Sound ∧ ∀ l, (∀ id, l = .free id → id ∈ s.allocated) → (s.Does l ↔ s.Meets l) := by
  have hsound : s.Sound := by
    refine h.invariant ?_ fun s l t hs hmeets hn => hs.next hmeets hn
    rintro s rfl
    exact Ids.sound_init
  refine ⟨hsound, ?_⟩
  intro l hl
  cases l with
  | alloc => exact hsound.alloc_iff
  | allocId id => exact hsound.allocId_iff
  | free id => exact hsound.free_iff (hl id rfl)

/-- Two ids of an `unsigned int`, and the first of them given back. -/
theorem ids_split_range_two : Ids.Sound (⟨⟨2, [0]⟩, {1}⟩ : Ids (Fin (2 ^ 32))) := by
  have hmax (x : Fin (2 ^ 32)) (hx : x < 5) : ¬ IsMax x := not_isMax_of_lt hx
  have htwo : (recyclerMachine (Fin (2 ^ 32))).ReachableBy Ids.Meets ⟨⟨2, []⟩, {1, 0}⟩ :=
    .step (l := .alloc) (.step (l := .alloc) (.init rfl) (fun _ => hmax 0 (by decide)) rfl) (fun _ => hmax 1 (by decide)) rfl
  refine (ids_split_range (.step (l := .free 0) htwo ⟨0, .inl rfl, 1, by decide, by decide, by decide⟩ ?_)).1
  simp [recyclerMachine, Ids.next, free, trim, Heap.pushHeap, Heap.pushHole, UnsignedLike.pred]
  decide

/-- The only id is given back: the loop of `Free` reads the front of an empty heap. -/
theorem not_forall_ids : ¬ ∀ s : Ids (Fin (2 ^ 32)), (recyclerMachine (Fin (2 ^ 32))).Reachable s →
    ∀ id ∈ s.allocated, (s.recycler.free id).isSome = true := by
  intro h
  have hreach : (recyclerMachine (Fin (2 ^ 32))).Reachable ⟨⟨1, []⟩, {0}⟩ := .step (l := .alloc) (.init rfl) trivial rfl
  have hfree := h _ hreach 0 (Finset.mem_singleton_self 0)
  simp [free, trim, Heap.pushHeap, Heap.pushHole, Heap.popHeap, UnsignedLike.pred] at hfree

end ProcessNetwork
