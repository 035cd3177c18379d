import ProcessNetwork.LocalEffects
import ProcessNetwork.Lib.Comparable

/-!
# Histories of a process network

A node is a program that says, from what it has done so far and what it has read, which operation on one of its queues it
does next.  A history is a list of such operations for each node, in which every read has the result that the whole history
gives it: the next bytes that the writer of the queue has enqueued on each channel, or null after a shutdown of the writer
with too few bytes left.  Two histories that agree as far as they go can only go on in the same way
(`IsHistory.comparable_extend`).
-/

namespace ProcessNetwork.LocalNetwork

inductive Op (κ : Type)
  | getRawDequeuePtr (q : κ) (thresh chan : Nat)
  | dequeue (q : κ) (count : Nat)
  | getRawEnqueuePtr (q : κ) (thresh chan : Nat)
  /-- A byte that the node puts where its pointer points. -/
  | write (q : κ) (chan off : Nat) (b : Byte)
  | enqueue (q : κ) (count : Nat)
  | shutdownReader (q : κ)
  | shutdownWriter (q : κ)
deriving DecidableEq, Repr

/-- The operation has a loop in which the thread can wait. -/
def Op.blocking {κ : Type} : Op κ → Bool
  | getRawDequeuePtr .. | getRawEnqueuePtr .. => true
  | dequeue .. | write .. | enqueue .. | shutdownReader _ | shutdownWriter _ => false

def Op.queue {κ : Type} : Op κ → κ
  | getRawDequeuePtr q _ _ | dequeue q _ | getRawEnqueuePtr q _ _ | write q _ _ _ | enqueue q _ | shutdownReader q
  | shutdownWriter q => q

/-- An operation that has returned. -/
structure Event (κ : Type) where
  op : Op κ
  /-- What the pointer of `GetRawDequeuePtr` shows, on its channel and, a stride apart, on those after it. -/
  result : Option (List (List Byte)) := none
deriving DecidableEq, Repr

variable {ι κ : Type} [DecidableEq κ] {q : κ} {l l' : List (Event κ)} {e e' : Event κ}

/-! ### What a queue has got -/

/-- What the writer has put into a queue. -/
structure Ledger where
  written : Nat → Nat → Option Byte := fun _ _ => none
  stream : Nat → List Byte := fun _ => []
  closed : Bool := false

namespace Ledger

def step (q : κ) (d : Ledger) (e : Event κ) : Ledger :=
  match e.op with
  | .write q' chan off b =>
    if q' = q then
      { d with written := Function.update d.written chan (Function.update (d.written chan) off (some b)) }
    else d
  | .enqueue q' count =>
    if q' = q then
      { d with
        written := fun _ _ => none
        stream := if d.closed then d.stream
          else fun c => d.stream c ++ (List.range count).map fun off => (d.written c off).getD 0 }
    else d
  | .shutdownWriter q' => if q' = q then { d with closed := true } else d
  | _ => d

/-- More has been put into the queue, unless it had been shut down. -/
structure Extends (d d' : Ledger) : Prop where
  stream : ∀ c, d.stream c <+: d'.stream c
  closed : d.closed = true → d'.closed = true ∧ d'.stream = d.stream

theorem Extends.refl (d : Ledger) : Extends d d := ⟨fun _ => List.prefix_rfl, fun h => ⟨h, rfl⟩⟩

theorem Extends.trans {d d' d'' : Ledger} (h : Extends d d') (h' : Extends d' d'') : Extends d d'' where
  stream c := (h.stream c).trans (h'.stream c)
  closed hd := by
    obtain ⟨hd', heq⟩ := h.closed hd
    obtain ⟨hd'', heq'⟩ := h'.closed hd'
    exact ⟨hd'', heq'.trans heq⟩

theorem Extends.step (q : κ) (d : Ledger) (e : Event κ) : Extends d (d.step q e) := by
  unfold Ledger.step
  split
  · split_ifs
    · exact ⟨fun _ => List.prefix_rfl, fun h => ⟨h, rfl⟩⟩
    · exact .refl d
  · split_ifs with hq hclosed
    · exact ⟨fun _ => List.prefix_rfl, fun h => ⟨h, rfl⟩⟩
    · exact ⟨fun _ => List.prefix_append _ _, fun h => absurd h hclosed⟩
    · exact .refl d
  · split_ifs
    · exact ⟨fun _ => List.prefix_rfl, fun _ => ⟨rfl, rfl⟩⟩
    · exact .refl d
  · exact .refl d

/-- All channels have got the same number of bytes. -/
def Level (d : Ledger) : Prop := ∀ c c', (d.stream c).length = (d.stream c').length

private theorem Level.step {d : Ledger} (h : Level d) (q : κ) (e : Event κ) : Level (d.step q e) := by
  unfold Ledger.step
  split
  · split_ifs
    · exact h
    · exact h
  · split_ifs with hq hclosed
    · exact h
    · intro c c'
      simp [h c c']
    · exact h
  · split_ifs
    · exact h
    · exact h
  · exact h

/-- What `GetRawDequeuePtr` returns: the next bytes of the channels from `chan` on, if there are enough. -/
def read (d : Ledger) (channels chan dequeued thresh : Nat) : Option (List (List Byte)) :=
  if dequeued + thresh ≤ (d.stream chan).length then
    some ((List.range (channels - chan)).map fun c => ((d.stream (chan + c)).drop dequeued).take thresh)
  else none

/-- A result that is there, or that is null after the shutdown, does not change any more. -/
theorem Extends.read_eq {d d' : Ledger} (h : Extends d d') (hd : Level d) {channels chan dequeued thresh : Nat}
    (hnull : d.read channels chan dequeued thresh = none → d.closed = true) :
    d'.read channels chan dequeued thresh = d.read channels chan dequeued thresh := by
  unfold read at hnull ⊢
  by_cases hlong : dequeued + thresh ≤ (d.stream chan).length
  · have hlong' : dequeued + thresh ≤ (d'.stream chan).length := hlong.trans (h.stream chan).length_le
    rw [if_pos hlong, if_pos hlong']
    refine congrArg some (List.map_congr_left fun c _ => ?_)
    obtain ⟨rest, hrest⟩ := h.stream (chan + c)
    have hlen := hd chan (chan + c)
    rw [← hrest, List.drop_append_of_le_length (by omega), List.take_append_of_le_length (by rw [List.length_drop]; omega)]
  · rw [(h.closed (hnull (if_neg hlong))).2]

end Ledger

def ledger (q : κ) (l : List (Event κ)) : Ledger := l.foldl (Ledger.step q) {}

def consumedStep (q : κ) (n : Nat) (e : Event κ) : Nat :=
  match e.op with
  | .dequeue q' count => if q' = q then n + count else n
  | _ => n

/-- What the reader has taken out of a queue. -/
def consumed (q : κ) (l : List (Event κ)) : Nat := l.foldl (consumedStep q) 0

theorem ledger_concat : ledger q (l ++ [e]) = (ledger q l).step q e := by
  rw [ledger, List.foldl_append]
  rfl

theorem consumed_concat : consumed q (l ++ [e]) = consumedStep q (consumed q l) e := by
  rw [consumed, List.foldl_append]
  rfl

theorem ledger_level (q : κ) (l : List (Event κ)) : (ledger q l).Level := by
  induction l using List.reverseRecOn with
  | nil => exact fun _ _ => rfl
  | append_singleton l e ih =>
    rw [ledger_concat]
    exact ih.step q e

theorem ledger_extends (h : l <+: l') : (ledger q l).Extends (ledger q l') :=
  foldl_of_begins Ledger.Extends.refl (fun _ _ _ h h' => h.trans h') (Ledger.Extends.step q) h _

theorem ledger_comparable (h : Comparable l l') :
    (ledger q l).Extends (ledger q l') ∨ (ledger q l').Extends (ledger q l) :=
  h.imp ledger_extends ledger_extends

/-! ### Histories -/

/-- The nodes with their programs, and the queues with their ends. -/
structure Network (ι κ : Type) where
  reader : κ → ι
  writer : κ → ι
  channels : κ → Nat
  /-- What a node does after what it has done. -/
  program : ι → List (Event κ) → Option (Op κ)

namespace Network

variable {N : Network ι κ} {T T' U : ι → List (Event κ)} {i : ι} {p : List (Event κ)}

/-- The result of the operation is the one that everything that is done gives it. -/
def Justified (N : Network ι κ) (T : ι → List (Event κ)) (p : List (Event κ)) (e : Event κ) : Prop :=
  match e.op with
  | .getRawDequeuePtr q thresh chan =>
    e.result = (ledger q (T (N.writer q))).read (N.channels q) chan (consumed q p) thresh ∧
      (e.result = none → (ledger q (T (N.writer q))).closed = true)
  | _ => e.result = none

def IsHistory (N : Network ι κ) (T : ι → List (Event κ)) : Prop :=
  ∀ i p e rest, T i = p ++ e :: rest → N.program i p = some e.op ∧ N.Justified T p e

/-- What is done later does not change a result. -/
theorem Justified.mono (h : N.Justified T p e) (hT : ∀ q, (ledger q (T (N.writer q))).Extends (ledger q (T' (N.writer q)))) :
    N.Justified T' p e := by
  unfold Justified at h ⊢
  split
  · rename_i q thresh chan hop
    rw [hop] at h
    obtain ⟨hresult, hclosed⟩ := h
    have heq := (hT q).read_eq (ledger_level q _) fun hnull => hclosed (hresult.trans hnull)
    exact ⟨hresult.trans heq.symm, fun hnull => ((hT q).closed (hclosed hnull)).1⟩
  · rename_i hother
    split at h
    · rename_i q thresh chan hop
      exact absurd hop (hother q thresh chan)
    · exact h

/-- Two results of one operation in histories that agree are the same. -/
theorem Justified.eq (h : N.Justified T p e) (h' : N.Justified U p e') (hop : e.op = e'.op)
    (hTU : ∀ i, Comparable (T i) (U i)) : e = e' := by
  have hresult : e.result = e'.result := by
    unfold Justified at h h'
    rw [← hop] at h'
    split at h
    · rename_i q thresh chan hread
      rw [hread] at h'
      obtain ⟨hresult, hclosed⟩ := h
      obtain ⟨hresult', hclosed'⟩ := h'
      obtain hext | hext := ledger_comparable (q := q) (hTU (N.writer q))
      · rw [hresult, hresult']
        exact (hext.read_eq (ledger_level q _) fun hnull => hclosed (hresult.trans hnull)).symm
      · rw [hresult, hresult']
        exact hext.read_eq (ledger_level q _) fun hnull => hclosed' (hresult'.trans hnull)
    · rename_i hother
      split at h'
      · rename_i q thresh chan hread
        exact absurd hread (hother q thresh chan)
      · rw [h, h']
  cases e
  cases e'
  cases hop
  cases hresult
  rfl

variable [DecidableEq ι]

/-- A history in which one node has done one more operation. -/
def extend (T : ι → List (Event κ)) (i : ι) (e : Event κ) : ι → List (Event κ) := Function.update T i (T i ++ [e])

private theorem extend_extends (q : κ) (j : ι) : (ledger q (T j)).Extends (ledger q (extend T i e j)) := by
  unfold extend
  by_cases heq : j = i
  · subst heq
    rw [Function.update_self, ledger_concat]
    exact .step q _ e
  · rw [Function.update_of_ne heq]
    exact .refl _

theorem IsHistory.extend (h : N.IsHistory T) (hprogram : N.program i (T i) = some e.op) (he : N.Justified T (T i) e) :
    N.IsHistory (extend T i e) := by
  intro j p e' rest heq
  have hmono {p : List (Event κ)} {e' : Event κ} (h : N.Justified T p e') : N.Justified (Network.extend T i e) p e' :=
    h.mono fun q => extend_extends q (N.writer q)
  by_cases hj : j = i
  · subst hj
    rw [Network.extend, Function.update_self] at heq
    -- the operation is the new one, or one of those before
    obtain rfl | ⟨rest', e'', rfl⟩ := List.eq_nil_or_concat' rest
    · obtain ⟨rfl, heq'⟩ := List.append_inj' heq rfl
      cases heq'
      exact ⟨hprogram, hmono he⟩
    · rw [← List.cons_append, ← List.append_assoc] at heq
      obtain ⟨hold, -⟩ := List.append_inj' heq rfl
      obtain ⟨hprogram', he'⟩ := h j p e' rest' hold
      exact ⟨hprogram', hmono he'⟩
  · rw [Network.extend, Function.update_of_ne hj] at heq
    obtain ⟨hprogram', he'⟩ := h j p e' rest heq
    exact ⟨hprogram', hmono he'⟩

/-- A node of one of two histories that agree goes on as the other history does, if that one goes further. -/
theorem IsHistory.comparable_extend (hU : N.IsHistory U) (hTU : ∀ i, Comparable (T i) (U i))
    (hprogram : N.program i (T i) = some e.op) (he : N.Justified T (T i) e) (j : ι) :
    Comparable (Network.extend T i e j) (U j) := by
  by_cases hj : j = i
  · subst hj
    rw [Network.extend, Function.update_self]
    refine (hTU j).concat fun e' rest heq => ?_
    obtain ⟨hprogram', he'⟩ := hU j (T j) e' rest heq
    rw [hprogram] at hprogram'
    exact he.eq he' (Option.some.inj hprogram') hTU
  · rw [Network.extend, Function.update_of_ne hj]
    exact hTU j

end Network

end ProcessNetwork.LocalNetwork
