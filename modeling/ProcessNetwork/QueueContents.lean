import ProcessNetwork.ThresholdQueue

/-!
# What a `ThresholdQueue` carries

`Carries q f e d` is the invariant of a `ThresholdQueue` between two of its operations: it carries the bytes `f c` on
channel `c`, an enqueue of at most `n` bytes is outstanding when `e = some n`, and a dequeue of at most `n` bytes when
`d = some n`.  The ring `queue` always holds all of `f`.  An old ring is kept only for an outstanding operation
(`OldFor`): for an enqueue it has room for the bytes being written, for a dequeue its front is the front of `f`.
`Enqueue` and `Dequeue` that throw after a shutdown clear the flag of the operation and leave the old ring behind, so
the flag of an operation that uses the old ring may be down.

Each operation has one lemma, which also says that the pointers of the operation on the other end stay what they
were.
-/

namespace ProcessNetwork

namespace ThresholdQueue

open ThresholdQueueBase (Holds Grown)

variable {q : ThresholdQueue} {f g : Nat → List Byte} {e d : Option Nat} {n t c count : Nat}

/-- The ring an outstanding enqueue writes into. -/
def enqueueQueue (q : ThresholdQueue) : ThresholdQueueBase :=
  if q.enqueueUseOld then q.oldqueue.getD q.queue else q.queue

/-- The ring an outstanding dequeue reads from. -/
def dequeueQueue (q : ThresholdQueue) : ThresholdQueueBase :=
  if q.dequeueUseOld then q.oldqueue.getD q.queue else q.queue

def enqueuePtr (q : ThresholdQueue) (c : Nat) : Ptr :=
  ⟨q.enqueueQueue.buf, c * q.enqueueQueue.channelStride + q.enqueueQueue.tail % q.enqueueQueue.queueLength⟩

def dequeuePtr (q : ThresholdQueue) (c : Nat) : Ptr :=
  ⟨q.dequeueQueue.buf, c * q.dequeueQueue.channelStride + q.dequeueQueue.head % q.dequeueQueue.queueLength⟩

/-- The bytes in the enqueue region of channel `c`. -/
def enqueueRegion (q : ThresholdQueue) (c n : Nat) : List Byte := q.enqueueQueue.enqueueRegion c n

/-- The bytes in the dequeue region of channel `c`. -/
def dequeueRegion (q : ThresholdQueue) (c n : Nat) : List Byte := q.dequeueQueue.dequeueRegion c n

/-- The old ring, while an outstanding operation uses it. -/
inductive OldFor (q : ThresholdQueue) (f : Nat → List Byte) (e d : Option Nat) : Prop
  | none : q.oldqueue = none → q.enqueueUseOld = false → q.dequeueUseOld = false → OldFor q f e d
  | enqueue {old : ThresholdQueueBase} {n : Nat} {g : Nat → List Byte} : q.oldqueue = some old →
      q.enqueueUseOld = true → q.dequeueUseOld = false → e = some n → n ≤ old.freespace → n ≤ old.maxThreshold →
      old.maxThreshold ≤ q.queue.maxThreshold → old.Holds g → old.numChannels = q.queue.numChannels →
      old.buf < q.queue.buf → OldFor q f e d
  | dequeue {old : ThresholdQueueBase} {n : Nat} {g : Nat → List Byte} : q.oldqueue = some old →
      q.enqueueUseOld = false → q.dequeueUseOld = true → d = some n → n ≤ old.count → n ≤ old.maxThreshold →
      old.Holds g → (∀ c < q.queue.numChannels, (g c).take n = (f c).take n) →
      old.numChannels = q.queue.numChannels → old.buf < q.queue.buf → OldFor q f e d

structure Carries (q : ThresholdQueue) (f : Nat → List Byte) (e d : Option Nat) : Prop where
  holds : q.queue.Holds f
  inenqueue : q.inenqueue = e.isSome ∨ q.inenqueue = false ∧ q.enqueueUseOld = true
  indequeue : q.indequeue = d.isSome ∨ q.indequeue = false ∧ q.dequeueUseOld = true
  enqueue_le : e.getD 0 ≤ q.queue.freespace ∧ e.getD 0 ≤ q.queue.maxThreshold
  dequeue_le : d.getD 0 ≤ q.queue.count ∧ d.getD 0 ≤ q.queue.maxThreshold
  old : q.OldFor f e d

/-- The invariant looks at the rings and at the two flags of outstanding operations only. -/
theorem Carries.of_eq {q' : ThresholdQueue} (h : q.Carries f e d) (hq : q'.queue = q.queue)
    (ho : q'.oldqueue = q.oldqueue) (he : q'.enqueueUseOld = q.enqueueUseOld) (hd : q'.dequeueUseOld = q.dequeueUseOld)
    (hin : q'.inenqueue = q.inenqueue) (hid : q'.indequeue = q.indequeue) : q'.Carries f e d := by
  obtain ⟨h1, h2, h3, h4, h5, h6⟩ := h
  refine ⟨hq ▸ h1, ?_, ?_, hq ▸ h4, hq ▸ h5, ?_⟩
  · rwa [hin, he]
  · rwa [hid, hd]
  cases h6 with
  | none a b c => exact .none (ho.trans a) (he.trans b) (hd.trans c)
  | enqueue a1 a2 a3 a4 a5 a6 a7 a8 a9 a10 =>
    exact .enqueue (ho.trans a1) (he.trans a2) (hd.trans a3) a4 a5 a6 (hq ▸ a7) a8 (hq ▸ a9) (hq ▸ a10)
  | dequeue a1 a2 a3 a4 a5 a6 a7 a8 a9 a10 =>
    exact .dequeue (ho.trans a1) (he.trans a2) (hd.trans a3) a4 a5 a6 a7 (hq ▸ a8) (hq ▸ a9) (hq ▸ a10)

theorem Carries.congr (h : q.Carries f e d) (hfg : ∀ c < q.queue.numChannels, f c = g c) : q.Carries g e d := by
  refine ⟨h.holds.congr hfg, h.inenqueue, h.indequeue, h.enqueue_le, h.dequeue_le, ?_⟩
  cases h.old with
  | none h1 h2 h3 => exact .none h1 h2 h3
  | enqueue h1 h2 h3 h4 h5 h6 h7 h8 h9 h10 => exact .enqueue h1 h2 h3 h4 h5 h6 h7 h8 h9 h10
  | dequeue h1 h2 h3 h4 h5 h6 h7 h8 h9 h10 =>
    exact .dequeue h1 h2 h3 h4 h5 h6 h7 (fun c hc => hfg c hc ▸ h8 c hc) h9 h10

theorem Carries.create (malloc : Malloc) (length maxThreshold numChannels : Nat) :
    (create malloc length maxThreshold numChannels).Carries (fun _ => []) none none where
  holds := ThresholdQueueBase.holds_allocateBuf _ _ _ _ _
  inenqueue := .inl rfl
  indequeue := .inl rfl
  enqueue_le := ⟨Nat.zero_le _, Nat.zero_le _⟩
  dequeue_le := ⟨Nat.zero_le _, Nat.zero_le _⟩
  old := .none rfl rfl rfl

theorem Carries.not_useOld_enqueue (h : q.Carries f none d) : q.enqueueUseOld = false := by
  cases h.old with
  | none _ he _ => exact he
  | enqueue _ _ _ h => cases h
  | dequeue _ he => exact he

theorem Carries.not_useOld_dequeue (h : q.Carries f e none) : q.dequeueUseOld = false := by
  cases h.old with
  | none _ _ hd => exact hd
  | enqueue _ _ hd => exact hd
  | dequeue _ _ _ h => cases h

theorem Carries.not_inenqueue (h : q.Carries f none d) : q.inenqueue = false :=
  h.inenqueue.elim id (·.1)

/-! ### Pointers -/

/-- A pointer for writing is available when the ring has room and the threshold allows it. -/
theorem Carries.internalGetRawEnqueuePtr_none (h : q.Carries f none d) :
    q.internalGetRawEnqueuePtr t c =
      .ok (if t > q.queue.freespace ∨ t > q.queue.maxThreshold then none else some (q.enqueuePtr c)) := by
  rw [internalGetRawEnqueuePtr, h.not_useOld_enqueue, if_neg (by decide), ThresholdQueueBase.getRawEnqueuePtr]
  split
  · rfl
  · rw [enqueuePtr, enqueueQueue, h.not_useOld_enqueue]; rfl

/-- Asking again while the enqueue is outstanding gives the same region. -/
theorem Carries.internalGetRawEnqueuePtr_some (h : q.Carries f (some n) d) (hin : q.inenqueue = true) (ht : t ≤ n) :
    q.internalGetRawEnqueuePtr t c = .ok (some (q.enqueuePtr c)) := by
  have hle := h.enqueue_le
  rw [Option.getD_some] at hle
  have hnew (hu : q.enqueueUseOld = false) : q.internalGetRawEnqueuePtr t c = .ok (some (q.enqueuePtr c)) := by
    rw [internalGetRawEnqueuePtr, hu, if_neg (by decide), ThresholdQueueBase.getRawEnqueuePtr, if_neg (by omega),
      enqueuePtr, enqueueQueue, hu]
    rfl
  cases h.old with
  | none _ hu _ => exact hnew hu
  | dequeue _ hu => exact hnew hu
  | @enqueue old m _ ho hu _ hm h1 h2 =>
    cases hm
    rw [internalGetRawEnqueuePtr, hu, if_pos rfl, enqueuePtr, enqueueQueue, hu, if_pos rfl, ho, hin]
    dsimp only
    rw [ThresholdQueueBase.getRawEnqueuePtr, if_neg (by omega)]
    rfl

/-- After an `Enqueue` that threw, the assertion on the old ring fails. -/
theorem internalGetRawEnqueuePtr_stale (hin : q.inenqueue = false) (hu : q.enqueueUseOld = true) :
    q.internalGetRawEnqueuePtr t c = .error (.assert "inenqueue") := by
  rw [internalGetRawEnqueuePtr, hu, hin]
  rfl

theorem internalGetRawDequeuePtr_stale (hin : q.indequeue = false) (hu : q.dequeueUseOld = true) :
    q.internalGetRawDequeuePtr t c = .error (.assert "indequeue") := by
  rw [internalGetRawDequeuePtr, hu, hin]
  rfl

theorem Carries.internalGetRawDequeuePtr_none (h : q.Carries f e none) :
    q.internalGetRawDequeuePtr t c =
      .ok (if t > q.queue.count ∨ t > q.queue.maxThreshold then none else some (q.dequeuePtr c)) := by
  rw [internalGetRawDequeuePtr, h.not_useOld_dequeue, if_neg (by decide), ThresholdQueueBase.getRawDequeuePtr]
  split
  · rfl
  · rw [dequeuePtr, dequeueQueue, h.not_useOld_dequeue]; rfl

theorem Carries.internalGetRawDequeuePtr_some (h : q.Carries f e (some n)) (hin : q.indequeue = true) (ht : t ≤ n) :
    q.internalGetRawDequeuePtr t c = .ok (some (q.dequeuePtr c)) := by
  have hle := h.dequeue_le
  rw [Option.getD_some] at hle
  have hnew (hu : q.dequeueUseOld = false) : q.internalGetRawDequeuePtr t c = .ok (some (q.dequeuePtr c)) := by
    rw [internalGetRawDequeuePtr, hu, if_neg (by decide), ThresholdQueueBase.getRawDequeuePtr, if_neg (by omega),
      dequeuePtr, dequeueQueue, hu]
    rfl
  cases h.old with
  | none _ _ hu => exact hnew hu
  | enqueue _ _ hu => exact hnew hu
  | @dequeue old m _ ho _ hu hm h1 h2 =>
    cases hm
    rw [internalGetRawDequeuePtr, hu, if_pos rfl, dequeuePtr, dequeueQueue, hu, if_pos rfl, ho, hin]
    dsimp only
    rw [ThresholdQueueBase.getRawDequeuePtr, if_neg (by omega)]
    rfl

/-- The dequeue region is the front of what the queue carries. -/
theorem Carries.dequeueRegion_eq (h : q.Carries f e d) (ht : t ≤ d.getD 0) (hc : c < q.queue.numChannels) :
    q.dequeueRegion c t = (f c).take t := by
  have hle := h.dequeue_le
  have hnew (hu : q.dequeueUseOld = false) : q.dequeueRegion c t = (f c).take t := by
    rw [← h.holds.dequeueRegion_eq hc (show t ≤ q.queue.count by omega) (by omega), dequeueRegion, dequeueQueue, hu]
    rfl
  cases h.old with
  | none _ _ hu => exact hnew hu
  | enqueue _ _ hu => exact hnew hu
  | @dequeue old m g ho _ hu hm h1 h2 hg htake hch hbuf =>
    rw [hm, Option.getD_some] at ht
    have htake' : (g c).take t = (f c).take t := by
      have := congrArg (List.take t) (htake c hc)
      rwa [List.take_take, List.take_take, Nat.min_eq_left ht] at this
    rw [← htake', ← hg.dequeueRegion_eq (hch ▸ hc) (show t ≤ old.count by omega) (by omega), dequeueRegion, dequeueQueue,
      hu, ho]
    rfl

private theorem Fits.dequeueQueue (h : q.Fits) : q.dequeueQueue.Fits := by
  unfold ThresholdQueue.dequeueQueue
  cases ho : q.oldqueue with
  | none => simpa using h.1
  | some old =>
    split
    · exact h.2 old ho
    · exact h.1

private theorem Fits.enqueueQueue (h : q.Fits) : q.enqueueQueue.Fits := by
  unfold ThresholdQueue.enqueueQueue
  cases ho : q.oldqueue with
  | none => simpa using h.1
  | some old =>
    split
    · exact h.2 old ho
    · exact h.1

/-- The ring that an outstanding dequeue reads from is there. -/
theorem Carries.ringOf_dequeueQueue (h : q.Carries f e d) : q.ringOf q.dequeueQueue.buf = some q.dequeueQueue := by
  unfold ringOf dequeueQueue
  cases h.old with
  | none _ _ hu => simp [hu]
  | enqueue _ _ hu => simp [hu]
  | dequeue ho _ hu _ _ _ _ _ _ hbuf => simp [hu, ho, Nat.ne_of_gt hbuf]

private theorem Carries.ringOf_enqueueQueue (h : q.Carries f e d) : q.ringOf q.enqueueQueue.buf = some q.enqueueQueue := by
  unfold ringOf enqueueQueue
  cases h.old with
  | none _ hu _ => simp [hu]
  | dequeue _ hu => simp [hu]
  | enqueue ho hu _ _ _ _ _ _ _ hbuf => simp [hu, ho, Nat.ne_of_gt hbuf]

/-- What is read through a dequeue pointer byte by byte is the front of what the queue carries. -/
theorem Carries.peek_dequeuePtr (h : q.Carries f e (some n)) {off : Nat} (hoff : off < n) (hc : c < q.queue.numChannels) :
    q.peek (q.dequeuePtr c) off = ((f c).take n)[off]? := by
  rw [← h.dequeueRegion_eq (show n ≤ (some n).getD 0 from Nat.le_refl n) hc, peek, dequeuePtr, h.ringOf_dequeueQueue]
  simp [dequeueRegion, ThresholdQueueBase.dequeueRegion, slice, hoff]

/-- The dequeue regions are in their block. -/
theorem Carries.inBlock_dequeuePtr (h : q.Carries f e (some n)) (hfits : q.Fits) (ht : t ≤ n)
    (hc : c < q.queue.numChannels) : q.inBlock (q.dequeuePtr c) t = true := by
  rw [inBlock, dequeuePtr, h.ringOf_dequeueQueue]
  have hring : c < q.dequeueQueue.numChannels ∧ n ≤ q.dequeueQueue.maxThreshold := by
    have hle := h.dequeue_le.2
    unfold dequeueQueue
    cases h.old with
    | none _ _ hu => simpa [hu] using ⟨hc, hle⟩
    | enqueue _ _ hu => simpa [hu] using ⟨hc, hle⟩
    | dequeue ho _ hu hn _ hm _ _ hch _ =>
      cases hn
      simpa [hu, ho] using ⟨hch ▸ hc, hm⟩
  exact decide_eq_true (ThresholdQueueBase.region_le_size hfits.dequeueQueue hring.1 (ht.trans hring.2) _)

/-- The enqueue regions are in their block. -/
theorem Carries.inBlock_enqueuePtr (h : q.Carries f (some n) d) (hfits : q.Fits) (ht : t ≤ n)
    (hc : c < q.queue.numChannels) : q.inBlock (q.enqueuePtr c) t = true := by
  rw [inBlock, enqueuePtr, h.ringOf_enqueueQueue]
  have hring : c < q.enqueueQueue.numChannels ∧ n ≤ q.enqueueQueue.maxThreshold := by
    have hle := h.enqueue_le.2
    unfold enqueueQueue
    cases h.old with
    | none _ hu _ => simpa [hu] using ⟨hc, hle⟩
    | dequeue _ hu => simpa [hu] using ⟨hc, hle⟩
    | enqueue ho hu _ hn _ hm _ _ hch _ =>
      cases hn
      simpa [hu, ho] using ⟨hch ▸ hc, hm⟩
  exact decide_eq_true (ThresholdQueueBase.region_le_size hfits.enqueueQueue hring.1 (ht.trans hring.2) _)

/-- The bytes seen through a dequeue pointer are the front of what the queue carries. -/
theorem Carries.load_dequeuePtr (h : q.Carries f e (some n)) (hfits : q.Fits) (ht : t ≤ n) (hc : c < q.queue.numChannels) :
    q.load (q.dequeuePtr c) t = some ((f c).take t) := by
  rw [← h.dequeueRegion_eq (show t ≤ (some n).getD 0 from ht) hc, load, h.inBlock_dequeuePtr hfits ht hc, if_pos rfl,
    dequeuePtr, h.ringOf_dequeueQueue]
  rfl

end ThresholdQueue

end ProcessNetwork
