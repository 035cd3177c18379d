import ProcessNetwork.LocalQueue
import ProcessNetwork.Passes

/-!
# The invariant of a local queue

`Sound s` relates a state of the local queue to the history of the queue: what the queue carries on a channel is what
was enqueued there and not yet dequeued, every pointer a node holds is the pointer of the outstanding operation, and
what the writer has written since the enqueue began is in the enqueue regions.  It holds along every run in which no
`Enqueue` comes after the shutdown of the writer and no `Dequeue` after that of the reader (`Sound.next`).

A pass of a blocking loop is first brought into the form of a step of the machine (`DequeueStep`, `EnqueueStep`); every
invariant of the local queue is proved by cases on these.
-/

namespace ProcessNetwork

open ThresholdQueueBase (SameShape)
open ThresholdQueue (Carries GrownTo StoredTo)
open QueueBase (outEnqueue outDequeue)

variable {k : KernelBase} {s s' : LocalState} {q q' : ThresholdQueue} {f : Nat → List Byte} {t c : Nat} {grown : Bool}

/-- `q'` carries the same as `q`, and the pointers of outstanding operations stay what they were. -/
structure Kept (f : Nat → List Byte) (q q' : ThresholdQueue) : Prop where
  carries : q'.Carries f q.outEnqueue q.outDequeue
  numChannels : q'.queue.numChannels = q.queue.numChannels
  inenqueue : q'.inenqueue = q.inenqueue
  indequeue : q'.indequeue = q.indequeue
  enqueuethresh : q'.enqueuethresh = q.enqueuethresh
  dequeuethresh : q'.dequeuethresh = q.dequeuethresh
  enqueuePtr : q.inenqueue = true → ∀ c, q'.enqueuePtr c = q.enqueuePtr c
  enqueueRegion : q.inenqueue = true → ∀ c n, q'.enqueueRegion c n = q.enqueueRegion c n
  dequeuePtr : q.indequeue = true → ∀ c, q'.dequeuePtr c = q.dequeuePtr c

private theorem Kept.outEnqueue_eq (h : Kept f q q') : q'.outEnqueue = q.outEnqueue := by
  rw [outEnqueue, outEnqueue, h.inenqueue, h.enqueuethresh]

private theorem Kept.outDequeue_eq (h : Kept f q q') : q'.outDequeue = q.outDequeue := by
  rw [outDequeue, outDequeue, h.indequeue, h.dequeuethresh]

/-- Only requests, shutdown flags and sleeping threads are changed. -/
theorem Kept.of_base {b : QueueBase} (h : q.Carries f q.outEnqueue q.outDequeue) (h1 : b.inenqueue = q.inenqueue)
    (h2 : b.indequeue = q.indequeue) (h3 : b.enqueuethresh = q.enqueuethresh) (h4 : b.dequeuethresh = q.dequeuethresh) :
    Kept f q { q with toQueueBase := b } :=
  ⟨h.of_eq rfl rfl rfl rfl h1 h2, rfl, h1, h2, h3, h4, fun _ _ => rfl, fun _ _ _ => rfl, fun _ _ => rfl⟩

private theorem Kept.of_grown {len mt : Nat} (h : q'.Carries f q.outEnqueue q.outDequeue)
    (hg : GrownTo q q.outEnqueue q.outDequeue len mt q') : Kept f q q' where
  carries := h
  numChannels := hg.queue.numChannels
  inenqueue := by rw [hg.toQueueBase]
  indequeue := by rw [hg.toQueueBase]
  enqueuethresh := by rw [hg.toQueueBase]
  dequeuethresh := by rw [hg.toQueueBase]
  enqueuePtr hin := hg.enqueuePtr (q.isSome_outEnqueue.trans hin)
  enqueueRegion hin := hg.enqueueRegion (q.isSome_outEnqueue.trans hin)
  dequeuePtr hin := hg.dequeuePtr (q.isSome_outDequeue.trans hin)

namespace LocalState

/-! ### Passes as steps of the machine -/

/-- The bytes enqueued on channel `c` and not yet dequeued. -/
def pending (s : LocalState) (c : Nat) : List Byte := (s.enqueued c).drop s.dequeued

/-- What a pass of the loop of `GetRawDequeuePtr` makes of the state. -/
inductive DequeueStep (k : KernelBase) (s : LocalState) (t c : Nat) : LocalState → Prop
  | pointer : s.q.indequeue = true ∨ t ≤ s.q.queue.count ∧ t ≤ s.q.queue.maxThreshold →
      DequeueStep k s t c { s with
        q := { s.q with indequeue := true }, reader := .idle, readerPtrs := ⟨c, t, s.q.dequeuePtr c⟩ :: s.readerPtrs }
  | ends : s.q.shutdown = true → DequeueStep k s t c { s with reader := .idle }
  | grows {q' : ThresholdQueue} (len : Nat) : s.q.indequeue = false → s.q.shutdown = false →
      q'.Carries s.pending s.q.outEnqueue s.q.outDequeue →
      GrownTo s.q s.q.outEnqueue s.q.outDequeue len t q' →
      DequeueStep k s t c { s with q := { q' with cond := fun _ => false } }
  | blocks : s.q.indequeue = false → s.q.shutdown = false →
      (k.growQueueMaxThreshold = true → t ≤ s.q.queue.maxThreshold ∧ Queue.writeBlocked s.q = false) →
      s.q.queue.count < t →
      DequeueStep k s t c { s with
        q := setCond { s.q with readrequest := t } .reader (!k.useD4R), reader := .waiting t c }
  | goesOn : s.q.indequeue = false → s.q.shutdown = false →
      DequeueStep k s t c { s with q := { s.q with readrequest := 0 } }

theorem dequeuePass_step (h : s.q.Carries s.pending s.q.outEnqueue s.q.outDequeue)
    (ht : s.q.Dequeuing t) : DequeueStep k s t c (s.dequeuePass k t c) := by
  have ho := Queue.dequeuePass_outcome (q := s.q) (k := k) (c := c) h ht
  unfold dequeuePass
  revert ho
  generalize Queue.dequeuePass k s.q t c = p
  intro ho
  cases ho with
  | pointer hp => exact .pointer hp
  | null hs hw => exact .ends (by rw [QueueBase.shutdown]; exact Bool.or_eq_true_iff.2 (.inr hw))
  | broken hs hw hr => exact .ends (by rw [QueueBase.shutdown]; exact Bool.or_eq_true_iff.2 (.inl hr))
  | grows len hs hsd hk hl =>
    obtain ⟨q', hok, hc, hg⟩ := Queue.growPass_local (k := k) (t := t) h (.inr hs.1) len
    rw [hok]
    exact .grows len hs.1 hsd hc hg
  | waits hs hsd hk =>
    have hblocked : Queue.readBlocked { s.q with readrequest := t } = decide (s.q.queue.count < t) := by
      change (_ && !s.q.shutdown) = _
      rw [show s.q.shutdown = false from hsd, Bool.not_false, Bool.and_true]
      rfl
    show DequeueStep k s t c (if Queue.readBlocked { s.q with readrequest := t } then _ else _)
    rw [hblocked]
    split_ifs with hct
    · exact .blocks hs.1 hsd hk (by simpa using hct)
    · exact .goesOn hs.1 hsd

inductive EnqueueStep (k : KernelBase) (s : LocalState) (t c : Nat) (grown : Bool) : LocalState → Prop
  | pointer : s.q.inenqueue = true ∨ t ≤ s.q.queue.freespace ∧ t ≤ s.q.queue.maxThreshold →
      EnqueueStep k s t c grown { s with
        q := { s.q with inenqueue := true }, writer := .idle, writerPtrs := ⟨c, t, s.q.enqueuePtr c⟩ :: s.writerPtrs }
  | ends : s.q.shutdown = true → EnqueueStep k s t c grown { s with writer := .idle }
  | raises {q' : ThresholdQueue} (len : Nat) : s.q.inenqueue = false → s.q.shutdown = false →
      s.q.queue.maxThreshold < t →
      q'.Carries s.pending s.q.outEnqueue s.q.outDequeue →
      GrownTo s.q s.q.outEnqueue s.q.outDequeue len t q' →
      EnqueueStep k s t c grown { s with q := { q' with cond := fun _ => false }, writer := .loop t c grown }
  | grows {q' : ThresholdQueue} : s.q.inenqueue = false → s.q.shutdown = false → t ≤ s.q.queue.maxThreshold →
      s.q.queue.count < s.q.readrequest →
      q'.Carries s.pending s.q.outEnqueue s.q.outDequeue →
      GrownTo s.q s.q.outEnqueue s.q.outDequeue (u32 (s.q.readrequest + t)) t q' →
      EnqueueStep k s t c grown { s with q := { q' with cond := fun _ => false }, writer := .loop t c true }
  | blocks : s.q.inenqueue = false → s.q.shutdown = false →
      (k.growQueueMaxThreshold = true →
        t ≤ s.q.queue.maxThreshold ∧ (grown = true ∨ Queue.readBlocked s.q = false)) →
      s.q.queue.freespace < t →
      EnqueueStep k s t c grown { s with
        q := setCond { s.q with writerequest := t } .writer (!k.useD4R), writer := .waiting t c grown }
  | goesOn : s.q.inenqueue = false → s.q.shutdown = false → k.growQueueMaxThreshold = false →
      EnqueueStep k s t c grown { s with q := { s.q with writerequest := 0 }, writer := .loop t c grown }

theorem enqueuePass_step (h : s.q.Carries s.pending s.q.outEnqueue s.q.outDequeue)
    (ht : s.q.Enqueuing t) : EnqueueStep k s t c grown (s.enqueuePass k t c grown) := by
  have ho : Queue.EnqueueOutcome k s.q t c grown _ := Queue.enqueuePass_outcome h ht
  unfold enqueuePass
  revert ho
  generalize Queue.enqueuePass k s.q t c grown = p
  intro ho
  cases ho with
  | pointer hp => exact .pointer hp
  | broken hs hsd => exact .ends hsd
  | raises hs hsd hk hm =>
    obtain ⟨q', hok, hc, hg⟩ := Queue.growPass_local (k := k) (t := t) h (.inl hs.1) (u32 (2 * t))
    rw [hok]
    exact .raises _ hs.1 hsd hm hc hg
  | grows hs hsd hk hm hgr hb =>
    obtain ⟨q', hok, hc, hg⟩ := Queue.growPass_local (k := k) (t := t) h (.inl hs.1)
      (u32 ((Queue.base s.q).readrequest + t))
    rw [hok]
    refine .grows hs.1 hsd hm ?_ hc hg
    rw [Queue.readBlocked, Bool.and_eq_true, decide_eq_true_eq] at hb
    exact hb.1
  | waits hs hsd hk =>
    have hblocked : Queue.writeBlocked { s.q with writerequest := t } = decide (s.q.queue.freespace < t) := by
      change (_ && !s.q.shutdown) = _
      rw [show s.q.shutdown = false from hsd, Bool.not_false, Bool.and_true]
      rfl
    show EnqueueStep k s t c grown (if Queue.writeBlocked { s.q with writerequest := t } then _ else _)
    rw [hblocked]
    split_ifs with hct
    · exact .blocks hs.1 hsd hk (by simpa using hct)
    · refine .goesOn hs.1 hsd ?_
      -- with growth enabled the threshold is at most `maxThreshold`, so the free space is short
      cases hg : k.growQueueMaxThreshold with
      | false => rfl
      | true =>
        rcases hs.2 with h | h
        · exact absurd (decide_eq_true h) hct
        · exact absurd h (Nat.not_lt.2 (hk hg).1)

/-! ### The invariant -/

/-- What holds of the queue while the reader is at `pc`. -/
def ReaderAt (q : ThresholdQueue) : ReaderPc → Prop
  | .idle => True
  | .loop t c => c < q.queue.numChannels ∧ q.Dequeuing t
  | .waiting t c => c < q.queue.numChannels ∧ q.indequeue = false ∧ q.dequeuethresh = t

def WriterAt (q : ThresholdQueue) : WriterPc → Prop
  | .idle => True
  | .loop t c _ => c < q.queue.numChannels ∧ q.Enqueuing t
  | .waiting t c _ => c < q.queue.numChannels ∧ q.inenqueue = false ∧ q.enqueuethresh = t

structure Sound (s : LocalState) : Prop where
  failed : s.failed = none
  carries : s.q.Carries s.pending s.q.outEnqueue s.q.outDequeue
  dequeued_le : ∀ c < s.q.queue.numChannels, s.dequeued ≤ (s.enqueued c).length
  readerPtrs : ∀ p ∈ s.readerPtrs, s.q.indequeue = true ∧ p.chan < s.q.queue.numChannels ∧
    p.thresh ≤ s.q.dequeuethresh ∧ p.ptr = s.q.dequeuePtr p.chan
  writerPtrs : ∀ p ∈ s.writerPtrs, s.q.inenqueue = true ∧ p.chan < s.q.queue.numChannels ∧
    p.thresh ≤ s.q.enqueuethresh ∧ p.ptr = s.q.enqueuePtr p.chan
  written : ∀ c j b, s.written c j = some b → s.q.inenqueue = true ∧
    (s.q.enqueueRegion c s.q.enqueuethresh)[j]? = some b
  reader : ReaderAt s.q s.reader
  writer : WriterAt s.q s.writer

theorem ReaderAt.congr {pc : ReaderPc} (h : ReaderAt q pc) (h1 : q'.queue.numChannels = q.queue.numChannels)
    (h2 : q'.indequeue = q.indequeue) (h3 : q'.dequeuethresh = q.dequeuethresh) : ReaderAt q' pc := by
  cases pc with
  | idle => trivial
  | loop t c => simpa only [ReaderAt, QueueBase.Dequeuing, h1, h2, h3] using h
  | waiting t c => simpa only [ReaderAt, h1, h2, h3] using h

theorem WriterAt.congr {pc : WriterPc} (h : WriterAt q pc) (h1 : q'.queue.numChannels = q.queue.numChannels)
    (h2 : q'.inenqueue = q.inenqueue) (h3 : q'.enqueuethresh = q.enqueuethresh) : WriterAt q' pc := by
  cases pc with
  | idle => trivial
  | loop t c => simpa only [WriterAt, QueueBase.Enqueuing, h1, h2, h3] using h
  | waiting t c => simpa only [WriterAt, h1, h2, h3] using h

namespace Sound

/-- The queue may be replaced by one that carries the same for the same outstanding operations. -/
theorem keep (h : Sound s) (hk : Kept s.pending s.q q') : Sound { s with q := q' } where
  failed := h.failed
  carries := by
    show q'.Carries s.pending q'.outEnqueue q'.outDequeue
    rw [hk.outEnqueue_eq, hk.outDequeue_eq]
    exact hk.carries
  dequeued_le c hc := h.dequeued_le c (hk.numChannels ▸ hc)
  readerPtrs p hp := by
    obtain ⟨h1, h2, h3, h4⟩ := h.readerPtrs p hp
    exact ⟨hk.indequeue.trans h1, hk.numChannels.symm ▸ h2, hk.dequeuethresh.symm ▸ h3,
      h4.trans (hk.dequeuePtr h1 _).symm⟩
  writerPtrs p hp := by
    obtain ⟨h1, h2, h3, h4⟩ := h.writerPtrs p hp
    exact ⟨hk.inenqueue.trans h1, hk.numChannels.symm ▸ h2, hk.enqueuethresh.symm ▸ h3,
      h4.trans (hk.enqueuePtr h1 _).symm⟩
  written c j b hb := by
    obtain ⟨h1, h2⟩ := h.written c j b hb
    refine ⟨hk.inenqueue.trans h1, ?_⟩
    show (q'.enqueueRegion c q'.enqueuethresh)[j]? = some b
    rw [hk.enqueueRegion h1, hk.enqueuethresh]
    exact h2
  reader := h.reader.congr hk.numChannels hk.indequeue hk.dequeuethresh
  writer := h.writer.congr hk.numChannels hk.inenqueue hk.enqueuethresh

private theorem withBase (h : Sound s) {b : QueueBase} (h1 : b.inenqueue = s.q.inenqueue) (h2 : b.indequeue = s.q.indequeue)
    (h3 : b.enqueuethresh = s.q.enqueuethresh) (h4 : b.dequeuethresh = s.q.dequeuethresh) :
    Sound { s with q := { s.q with toQueueBase := b } } :=
  h.keep (.of_base h.carries h1 h2 h3 h4)

private theorem withReader (h : Sound s) {b : QueueBase} {pc : ReaderPc} (h1 : b.inenqueue = s.q.inenqueue)
    (h2 : b.indequeue = s.q.indequeue) (h3 : b.enqueuethresh = s.q.enqueuethresh)
    (h4 : b.dequeuethresh = s.q.dequeuethresh) (hpc : ReaderAt { s.q with toQueueBase := b } pc) :
    Sound { s with q := { s.q with toQueueBase := b }, reader := pc } :=
  have h := h.withBase h1 h2 h3 h4
  ⟨h.failed, h.carries, h.dequeued_le, h.readerPtrs, h.writerPtrs, h.written, hpc, h.writer⟩

private theorem withWriter (h : Sound s) {b : QueueBase} {pc : WriterPc} (h1 : b.inenqueue = s.q.inenqueue)
    (h2 : b.indequeue = s.q.indequeue) (h3 : b.enqueuethresh = s.q.enqueuethresh)
    (h4 : b.dequeuethresh = s.q.dequeuethresh) (hpc : WriterAt { s.q with toQueueBase := b } pc) :
    Sound { s with q := { s.q with toQueueBase := b }, writer := pc } :=
  have h := h.withBase h1 h2 h3 h4
  ⟨h.failed, h.carries, h.dequeued_le, h.readerPtrs, h.writerPtrs, h.written, h.reader, hpc⟩

/-- No pointers are held while no operation is outstanding. -/
theorem readerPtrs_eq_nil (h : Sound s) (hin : s.q.indequeue = false) : s.readerPtrs = [] := by
  refine List.eq_nil_iff_forall_not_mem.2 fun p hp => ?_
  rw [(h.readerPtrs p hp).1] at hin
  cases hin

private theorem writerPtrs_eq_nil (h : Sound s) (hin : s.q.inenqueue = false) : s.writerPtrs = [] := by
  refine List.eq_nil_iff_forall_not_mem.2 fun p hp => ?_
  rw [(h.writerPtrs p hp).1] at hin
  cases hin

private theorem written_eq_none (h : Sound s) (hin : s.q.inenqueue = false) (c j : Nat) : s.written c j = none := by
  cases hw : s.written c j with
  | none => rfl
  | some b =>
    rw [(h.written c j b hw).1] at hin
    cases hin

theorem start (k : KernelBase) (length maxThreshold numChannels : Nat) :
    Sound (localStart k length maxThreshold numChannels) where
  failed := rfl
  carries := Carries.create _ _ _ _
  dequeued_le _ _ := Nat.zero_le _
  readerPtrs p hp := absurd hp List.not_mem_nil
  writerPtrs p hp := absurd hp List.not_mem_nil
  written c j b hb := by cases hb
  reader := trivial
  writer := trivial

/-! ### The steps of the reader -/

theorem getRawDequeuePtr (h : Sound s) (hc : c < s.q.queue.numChannels) :
    Sound (s.getRawDequeuePtr t c) := by
  unfold LocalState.getRawDequeuePtr
  split_ifs with hin ht
  · refine h.withReader (b := s.q.toQueueBase) rfl rfl rfl rfl ⟨hc, ?_⟩
    rw [QueueBase.Dequeuing, if_pos hin]
    exact ht
  · exact h
  · have hin : s.q.indequeue = false := by simpa using hin
    have hout : ({ s.q with dequeuethresh := t } : ThresholdQueue).outDequeue = s.q.outDequeue := by
      simp [outDequeue, hin]
    refine ⟨h.failed, ?_, h.dequeued_le, ?_, h.writerPtrs, h.written, ⟨hc, ?_⟩, h.writer⟩
    · show Carries _ _ _ ({ s.q with dequeuethresh := t } : ThresholdQueue).outDequeue
      rw [hout]
      exact h.carries.of_eq rfl rfl rfl rfl rfl rfl
    · intro p hp
      change p ∈ s.readerPtrs at hp
      rw [h.readerPtrs_eq_nil hin] at hp
      cases hp
    · rw [QueueBase.Dequeuing]
      simp [hin]

private theorem dequeueStep (h : Sound s) (hr : s.reader = .loop t c) (hs : DequeueStep k s t c s') : Sound s' := by
  have hat := h.reader
  rw [hr] at hat
  cases hs with
  | pointer hp =>
    have hthresh : t ≤ s.q.dequeuethresh := by
      have := hat.2
      rw [QueueBase.Dequeuing] at this
      split_ifs at this <;> omega
    refine ⟨h.failed, ?_, h.dequeued_le, ?_, h.writerPtrs, h.written, trivial, h.writer⟩
    · by_cases hin : s.q.indequeue = true
      · have : ({ s.q with indequeue := true } : ThresholdQueue).outDequeue = s.q.outDequeue := by
          simp [outDequeue, hin]
        show Carries _ _ _ ({ s.q with indequeue := true } : ThresholdQueue).outDequeue
        rw [this]
        exact h.carries.of_eq rfl rfl rfl rfl rfl hin.symm
      · have hin : s.q.indequeue = false := by simpa using hin
        have hcar := h.carries
        rw [QueueBase.outDequeue_of_not hin] at hcar
        have := hat.2
        rw [QueueBase.Dequeuing, hin, if_neg (by decide)] at this
        have hp := hp.resolve_left (by simp [hin])
        show Carries _ _ _ (some s.q.dequeuethresh)
        rw [this]
        exact hcar.beginDequeue hp.1 hp.2 rfl rfl
    · intro p hp
      rcases List.mem_cons.1 hp with rfl | hp
      · exact ⟨rfl, hat.1, hthresh, rfl⟩
      · exact ⟨rfl, (h.readerPtrs p hp).2⟩
  | ends => exact h.withReader (b := s.q.toQueueBase) rfl rfl rfl rfl trivial
  | grows len hin hsd hcar hg => exact (h.keep (.of_grown hcar hg)).withBase rfl rfl rfl rfl
  | blocks hin hsd =>
    have hd := hat.2
    rw [QueueBase.Dequeuing, hin, if_neg (by decide)] at hd
    exact h.withReader rfl rfl rfl rfl ⟨hat.1, hin, hd⟩
  | goesOn hin hsd => exact h.withBase rfl rfl rfl rfl

private theorem readerWakes (h : Sound s) (hr : s.reader = .waiting t c) : Sound (s.readerWakes t c) := by
  have hat := h.reader
  rw [hr] at hat
  unfold LocalState.readerWakes
  split_ifs with hb
  · exact h.withBase rfl rfl rfl rfl
  · refine h.withReader rfl rfl rfl rfl ⟨hat.1, ?_⟩
    show QueueBase.Dequeuing s.q.toQueueBase t
    rw [QueueBase.Dequeuing, hat.2.1]
    exact hat.2.2

/-- The amount a `Dequeue` may take. -/
theorem dequeue_le_getD {n : Nat} (hn : n ≤ if s.q.indequeue then s.q.dequeuethresh else 0) :
    n ≤ s.q.outDequeue.getD 0 := by
  rw [outDequeue]
  split_ifs at hn ⊢ <;> exact hn

private theorem dequeue (h : Sound s) {n : Nat} (hr : s.reader = .idle)
    (hn : n ≤ if s.q.indequeue then s.q.dequeuethresh else 0) (hsd : s.q.readshutdown = false) :
    Sound (s.dequeue n) := by
  have hle := dequeue_le_getD hn
  have hdle := h.carries.dequeue_le
  obtain ⟨hbase, hcar, hshape, hcount, hptr⟩ := h.carries.internalDequeue hle
    (b := { s.q.toQueueBase with dequeuethresh := 0, indequeue := false }) rfl rfl rfl
  unfold LocalState.dequeue
  rw [if_neg (by simpa using hsd)]
  generalize ThresholdQueue.internalDequeue _ n = q' at *
  have hin : q'.inenqueue = s.q.inenqueue := by rw [hbase]
  have hthresh : q'.enqueuethresh = s.q.enqueuethresh := by rw [hbase]
  have hid : q'.indequeue = false := by rw [hbase]
  have hnum : q'.queue.numChannels = s.q.queue.numChannels := hshape.numChannels
  have hsound : Sound { s with q := q', readerPtrs := [], dequeued := s.dequeued + n } := by
    refine ⟨h.failed, ?_, ?_, fun p hp => absurd hp List.not_mem_nil, ?_, ?_, ?_, ?_⟩
    · have hout : q'.outEnqueue = s.q.outEnqueue := by rw [outEnqueue, outEnqueue, hin, hthresh]
      show Carries q' _ q'.outEnqueue q'.outDequeue
      rw [hout, QueueBase.outDequeue_of_not hid]
      have hdrop : pending { s with q := q', readerPtrs := [], dequeued := s.dequeued + n } =
          fun c => (s.pending c).drop n := funext fun c => List.drop_drop.symm
      rw [hdrop]
      exact hcar
    · intro c hc
      have hc : c < s.q.queue.numChannels := hnum ▸ hc
      have hlen := h.carries.holds.length_eq c hc
      rw [pending, List.length_drop] at hlen
      have := h.dequeued_le c hc
      show s.dequeued + n ≤ (s.enqueued c).length
      omega
    · intro p hp
      obtain ⟨h1, h2, h3, h4⟩ := h.writerPtrs p hp
      exact ⟨hin.trans h1, hnum.symm ▸ h2, hthresh.symm ▸ h3, h4.trans (hptr _).1.symm⟩
    · intro c j x hx
      obtain ⟨h1, h2⟩ := h.written c j x hx
      refine ⟨hin.trans h1, ?_⟩
      show (q'.enqueueRegion c q'.enqueuethresh)[j]? = some x
      rw [hthresh, (hptr c).2]
      exact h2
    · show ReaderAt q' s.reader
      rw [hr]
      trivial
    · exact h.writer.congr hnum hin hthresh
  obtain ⟨cond, hnotify⟩ := Queue.notifyFreespace_eq q'
  rw [hnotify]
  exact hsound.withBase rfl rfl rfl rfl

/-! ### The steps of the writer -/

theorem getRawEnqueuePtr (h : Sound s) (hc : c < s.q.queue.numChannels) : Sound (s.getRawEnqueuePtr t c) := by
  unfold LocalState.getRawEnqueuePtr
  split_ifs with hin ht
  · refine h.withWriter (b := s.q.toQueueBase) rfl rfl rfl rfl ⟨hc, ?_⟩
    rw [QueueBase.Enqueuing, if_pos hin]
    exact ht
  · exact h
  · have hin : s.q.inenqueue = false := by simpa using hin
    have hout : ({ s.q with enqueuethresh := t } : ThresholdQueue).outEnqueue = s.q.outEnqueue := by
      simp [outEnqueue, hin]
    refine ⟨h.failed, ?_, h.dequeued_le, h.readerPtrs, ?_, ?_, h.reader, ⟨hc, ?_⟩⟩
    · show Carries _ _ ({ s.q with enqueuethresh := t } : ThresholdQueue).outEnqueue _
      rw [hout]
      exact h.carries.of_eq rfl rfl rfl rfl rfl rfl
    · intro p hp
      change p ∈ s.writerPtrs at hp
      rw [h.writerPtrs_eq_nil hin] at hp
      cases hp
    · intro c j b hb
      change s.written c j = some b at hb
      rw [h.written_eq_none hin] at hb
      cases hb
    · rw [QueueBase.Enqueuing]
      simp [hin]

private theorem enqueueStep (h : Sound s) (hw : s.writer = .loop t c grown) (hs : EnqueueStep k s t c grown s') :
    Sound s' := by
  have hat := h.writer
  rw [hw] at hat
  have hloop (hin : s.q.inenqueue = false) : s.q.enqueuethresh = t := by
    have := hat.2
    rwa [QueueBase.Enqueuing, hin, if_neg (by decide)] at this
  cases hs with
  | pointer hp =>
    have hthresh : t ≤ s.q.enqueuethresh := by
      have := hat.2
      rw [QueueBase.Enqueuing] at this
      split_ifs at this <;> omega
    refine ⟨h.failed, ?_, h.dequeued_le, h.readerPtrs, ?_, ?_, h.reader, trivial⟩
    · by_cases hin : s.q.inenqueue = true
      · have : ({ s.q with inenqueue := true } : ThresholdQueue).outEnqueue = s.q.outEnqueue := by
          simp [outEnqueue, hin]
        show Carries _ _ ({ s.q with inenqueue := true } : ThresholdQueue).outEnqueue _
        rw [this]
        exact h.carries.of_eq rfl rfl rfl rfl hin.symm rfl
      · have hin : s.q.inenqueue = false := by simpa using hin
        have hcar := h.carries
        rw [QueueBase.outEnqueue_of_not hin] at hcar
        have hp := hp.resolve_left (by simp [hin])
        show Carries _ _ (some s.q.enqueuethresh) _
        rw [hloop hin]
        exact hcar.beginEnqueue hp.1 hp.2 rfl rfl
    · intro p hp
      rcases List.mem_cons.1 hp with rfl | hp
      · exact ⟨rfl, hat.1, hthresh, rfl⟩
      · exact ⟨rfl, (h.writerPtrs p hp).2⟩
    · intro c j b hb
      exact ⟨rfl, (h.written c j b hb).2⟩
  | ends => exact h.withWriter (b := s.q.toQueueBase) rfl rfl rfl rfl trivial
  | raises len hin hsd hm hcar hg =>
    have hk := Kept.of_grown hcar hg
    exact (h.keep hk).withWriter rfl rfl rfl rfl
      (WriterAt.congr hat hk.numChannels hk.inenqueue hk.enqueuethresh)
  | grows hin hsd hm hb hcar hg =>
    have hk := Kept.of_grown hcar hg
    exact (h.keep hk).withWriter rfl rfl rfl rfl
      (WriterAt.congr hat hk.numChannels hk.inenqueue hk.enqueuethresh)
  | blocks hin hsd => exact h.withWriter rfl rfl rfl rfl ⟨hat.1, hin, hloop hin⟩
  | goesOn hin hsd => exact h.withWriter rfl rfl rfl rfl hat

private theorem writerWakes (h : Sound s) (hw : s.writer = .waiting t c grown) : Sound (s.writerWakes t c grown) := by
  have hat := h.writer
  rw [hw] at hat
  unfold LocalState.writerWakes
  split_ifs with hb
  · exact h.withBase rfl rfl rfl rfl
  · refine h.withWriter rfl rfl rfl rfl ⟨hat.1, ?_⟩
    show QueueBase.Enqueuing s.q.toQueueBase t
    rw [QueueBase.Enqueuing, hat.2.1]
    exact hat.2.2

private theorem write (h : Sound s) {p : HeldPtr} {off : Nat} (b : Byte) (hp : p ∈ s.writerPtrs) (hoff : off < p.thresh) :
    Sound (s.write p off b) := by
  obtain ⟨hin, hchan, hthresh, hptr⟩ := h.writerPtrs p hp
  have hcar := h.carries
  rw [outEnqueue, if_pos hin] at hcar
  obtain ⟨q', hok, hcar', hst⟩ := hcar.store (show off < s.q.enqueuethresh by omega) p.chan b
  have hin' : q'.inenqueue = true := by rw [hst.toQueueBase]; exact hin
  have hnum : q'.queue.numChannels = s.q.queue.numChannels := hst.queue.numChannels
  rw [LocalState.write, hptr, hok]
  refine ⟨h.failed, ?_, ?_, ?_, ?_, ?_, ?_, ?_⟩
  · show Carries q' _ q'.outEnqueue q'.outDequeue
    rw [outEnqueue, outDequeue, hst.toQueueBase, if_pos hin]
    exact hcar'
  · intro c hc
    exact h.dequeued_le c (hnum ▸ hc)
  · intro p' hp'
    obtain ⟨h1, h2, h3, h4⟩ := h.readerPtrs p' hp'
    simp only [hst.toQueueBase, hst.dequeuePtr, hnum]
    exact ⟨h1, h2, h3, h4⟩
  · intro p' hp'
    obtain ⟨h1, h2, h3, h4⟩ := h.writerPtrs p' hp'
    simp only [hst.toQueueBase, hst.enqueuePtr, hnum]
    exact ⟨h1, h2, h3, h4⟩
  · intro c j x hx
    refine ⟨hin', ?_⟩
    show (q'.enqueueRegion c q'.enqueuethresh)[j]? = some x
    rw [hst.toQueueBase]
    exact hst.getElem?_of_written (by omega) (fun c j x hx => (h.written c j x hx).2) hx
  · exact h.reader.congr hnum (by rw [hst.toQueueBase]) (by rw [hst.toQueueBase])
  · exact h.writer.congr hnum (by rw [hst.toQueueBase]) (by rw [hst.toQueueBase])

theorem enqueue_le_getD {n : Nat} (hn : n ≤ if s.q.inenqueue then s.q.enqueuethresh else 0) :
    n ≤ s.q.outEnqueue.getD 0 := by
  rw [outEnqueue]
  split_ifs at hn ⊢ <;> exact hn

/-- What `Enqueue` appends is what the writer wrote. -/
theorem newBytes_eq (h : Sound s) {n : Nat} (hn : n ≤ if s.q.inenqueue then s.q.enqueuethresh else 0) (c : Nat) :
    s.newBytes n c = s.q.enqueueRegion c n := by
  refine ThresholdQueue.mapIdx_written_eq (m := s.q.enqueuethresh) fun j x hx => ?_
  obtain ⟨hin, hb⟩ := h.written c j x hx
  rw [if_pos hin] at hn
  exact ⟨hn, hb⟩

private theorem enqueue (h : Sound s) {n : Nat} (hw : s.writer = .idle)
    (hn : n ≤ if s.q.inenqueue then s.q.enqueuethresh else 0) (hsd : s.q.writeshutdown = false) :
    Sound (s.enqueue n) := by
  have hdle := h.carries.dequeue_le
  obtain ⟨q', hok, hbase, hcar, hshape, hcount, hptr⟩ := h.carries.internalEnqueue (enqueue_le_getD hn)
    (b := { s.q.toQueueBase with enqueuethresh := 0, inenqueue := false }) rfl rfl
  unfold LocalState.enqueue
  rw [if_neg (by simpa using hsd)]
  dsimp only at hok ⊢
  rw [hok]
  have hid : q'.indequeue = s.q.indequeue := by rw [hbase]
  have hthresh : q'.dequeuethresh = s.q.dequeuethresh := by rw [hbase]
  have hin : q'.inenqueue = false := by rw [hbase]
  have hnum : q'.queue.numChannels = s.q.queue.numChannels := hshape.numChannels
  have hsound : Sound { s with
      q := q', writerPtrs := [], written := fun _ _ => none, enqueued := fun c => s.enqueued c ++ s.newBytes n c } := by
    refine ⟨h.failed, ?_, ?_, ?_, fun p hp => absurd hp List.not_mem_nil, fun c j b hb => (by cases hb),
      h.reader.congr hnum hid hthresh, ?_⟩
    · have hout : q'.outDequeue = s.q.outDequeue := by rw [outDequeue, outDequeue, hid, hthresh]
      show Carries q' _ q'.outEnqueue q'.outDequeue
      rw [hout, QueueBase.outEnqueue_of_not hin]
      have happ : ∀ c < q'.queue.numChannels,
          s.pending c ++ s.q.enqueueRegion c n = (s.enqueued c ++ s.newBytes n c).drop s.dequeued := by
        intro c hc
        rw [List.drop_append_of_le_length (h.dequeued_le c (hnum ▸ hc)), h.newBytes_eq hn, pending]
      exact hcar.congr happ
    · intro c hc
      rw [List.length_append]
      have := h.dequeued_le c (hnum ▸ hc)
      show s.dequeued ≤ _
      omega
    · intro p hp
      obtain ⟨h1, h2, h3, h4⟩ := h.readerPtrs p hp
      exact ⟨hid.trans h1, hnum.symm ▸ h2, hthresh.symm ▸ h3, h4.trans (hptr _).symm⟩
    · show WriterAt q' s.writer
      rw [hw]
      trivial
  obtain ⟨cond, hnotify⟩ := Queue.notifyData_eq q'
  show Sound { s with
    q := Queue.notifyData q', writerPtrs := [], written := fun _ _ => none,
    enqueued := fun c => s.enqueued c ++ s.newBytes n c }
  rw [hnotify]
  exact hsound.withBase rfl rfl rfl rfl

/-! ### The other threads -/

/-- `UnlockedGrow` succeeds, unless it has to grow while both an enqueue and a dequeue are outstanding. -/
theorem unlockedGrow (h : Sound s) (hed : s.q.inenqueue = false ∨ s.q.indequeue = false) (len mt : Nat) :
    ∃ q', s.q.unlockedGrow k.malloc len mt = .ok q' ∧ Kept s.pending s.q q' ∧
      GrownTo s.q s.q.outEnqueue s.q.outDequeue len mt q' := by
  obtain ⟨q', hok, hcar, hg⟩ := h.carries.unlockedGrow k.malloc s.q.isSome_outEnqueue.symm s.q.isSome_outDequeue.symm
    (hed.imp QueueBase.outEnqueue_of_not QueueBase.outDequeue_of_not) len mt
  exact ⟨q', hok, .of_grown hcar hg, hg⟩

/-- What the public `Grow` does. -/
theorem grow_cases (h : Sound s) (len mt : Nat) :
    (∃ q', s.grow k len mt = { s with q := q' } ∧ Kept s.pending s.q q' ∧
      GrownTo s.q s.q.outEnqueue s.q.outDequeue len mt q') ∨
    s.grow k len mt = s ∧ s.q.inenqueue = true ∧ s.q.indequeue = true := by
  by_cases hed : s.q.inenqueue = false ∨ s.q.indequeue = false
  · obtain ⟨q', hok, hk, hg⟩ := h.unlockedGrow (k := k) hed len mt
    refine .inl ⟨q', ?_, hk, hg⟩
    rw [LocalState.grow, hok]
  · have hboth : s.q.inenqueue = true ∧ s.q.indequeue = true := by simpa [not_or] using hed
    refine .inr ⟨?_, hboth⟩
    by_cases hno : len ≤ s.q.queue.queueLength ∧ mt ≤ s.q.queue.maxThreshold
    · rw [LocalState.grow, ThresholdQueue.unlockedGrow, if_pos hno]
    · rw [LocalState.grow, ThresholdQueue.unlockedGrow, if_neg hno, hboth.1, hboth.2]
      rfl

private theorem detect (h : Sound s) (hw : s.writer = .waiting t c grown) : Sound (s.detect k) := by
  have hat := h.writer
  rw [hw] at hat
  obtain ⟨q', hok, hk, -⟩ := h.unlockedGrow (k := k) (.inl hat.2.1)
    (k.calculateGrowSize s.q.queue.count s.q.writerequest) s.q.writerequest
  rw [LocalState.detect, hok]
  exact (h.keep hk).withBase rfl rfl rfl rfl

end Sound

/-! ### Whole steps -/

/-- The steps of the machine, with their guards. -/
inductive Step (k : KernelBase) (s : LocalState) : LocalAct → LocalState → Prop
  | getRawDequeuePtr {t c : Nat} : s.lockFree = true → s.reader = .idle → c < s.q.queue.numChannels →
      Step k s (.getRawDequeuePtr t c) (s.getRawDequeuePtr t c)
  | dequeuePass {t c : Nat} : s.reader = .loop t c → Step k s .dequeuePass (s.dequeuePass k t c)
  | readerWakes {t c : Nat} : s.reader = .waiting t c → s.lockFree = true → s.q.cond .reader = false →
      Step k s .readerWakes (s.readerWakes t c)
  | dequeue {n : Nat} : s.lockFree = true → s.reader = .idle →
      n ≤ (if s.q.indequeue then s.q.dequeuethresh else 0) → Step k s (.dequeue n) (s.dequeue n)
  | getRawEnqueuePtr {t c : Nat} : s.lockFree = true → s.writer = .idle → c < s.q.queue.numChannels →
      Step k s (.getRawEnqueuePtr t c) (s.getRawEnqueuePtr t c)
  | enqueuePass {t c : Nat} {grown : Bool} : s.writer = .loop t c grown →
      Step k s .enqueuePass (s.enqueuePass k t c grown)
  | writerWakes {t c : Nat} {grown : Bool} : s.writer = .waiting t c grown → s.lockFree = true →
      s.q.cond .writer = false → Step k s .writerWakes (s.writerWakes t c grown)
  | write {p : HeldPtr} {off : Nat} {b : Byte} : s.writer = .idle → p ∈ s.writerPtrs → off < p.thresh →
      Step k s (.write p off b) (s.write p off b)
  | enqueue {n : Nat} : s.lockFree = true → s.writer = .idle →
      n ≤ (if s.q.inenqueue then s.q.enqueuethresh else 0) → Step k s (.enqueue n) (s.enqueue n)
  | grow {len mt : Nat} : s.lockFree = true → Step k s (.grow len mt) (s.grow k len mt)
  | shutdownReader : s.lockFree = true → Step k s .shutdownReader { s with q := Queue.unlockedShutdownReader s.q }
  | shutdownWriter : s.lockFree = true → Step k s .shutdownWriter { s with q := Queue.unlockedShutdownWriter s.q }
  | detect {t c : Nat} {grown : Bool} : s.writer = .waiting t c grown → s.lockFree = true → k.useD4R = true →
      Queue.writeBlocked s.q = true → Step k s .detect (s.detect k)
  | deadlock {t c : Nat} : s.reader = .waiting t c → s.lockFree = true → k.useD4R = true →
      Step k s .deadlock { s with q := Queue.signal s.q, reader := .idle }
  | spuriousWakeup {th : Thread} : Step k s (.spuriousWakeup th) { s with q := setCond s.q th false }

theorem step_of_localNext {l : LocalAct} (h : localNext k s l = some s') : Step k s l s' := by
  cases l with
  | getRawDequeuePtr t c =>
    -- the guard of an action is the premise of the step
    obtain ⟨hg, ⟨⟩⟩ := Option.ite_none_right_eq_some.1 h
    exact .getRawDequeuePtr hg.1 hg.2.1 hg.2.2
  | dequeuePass =>
    simp only [localNext] at h
    split at h
    · rename_i hr
      cases h
      exact .dequeuePass hr
    · cases h
  | readerWakes =>
    simp only [localNext] at h
    split at h
    · rename_i hr
      obtain ⟨hg, ⟨⟩⟩ := Option.ite_none_right_eq_some.1 h
      exact .readerWakes hr hg.1 hg.2
    · cases h
  | dequeue n =>
    obtain ⟨hg, ⟨⟩⟩ := Option.ite_none_right_eq_some.1 h
    exact .dequeue hg.1 hg.2.1 hg.2.2
  | getRawEnqueuePtr t c =>
    obtain ⟨hg, ⟨⟩⟩ := Option.ite_none_right_eq_some.1 h
    exact .getRawEnqueuePtr hg.1 hg.2.1 hg.2.2
  | enqueuePass =>
    simp only [localNext] at h
    split at h
    · rename_i hw
      cases h
      exact .enqueuePass hw
    · cases h
  | writerWakes =>
    simp only [localNext] at h
    split at h
    · rename_i hw
      obtain ⟨hg, ⟨⟩⟩ := Option.ite_none_right_eq_some.1 h
      exact .writerWakes hw hg.1 hg.2
    · cases h
  | write p off b =>
    obtain ⟨hg, ⟨⟩⟩ := Option.ite_none_right_eq_some.1 h
    exact .write hg.1 hg.2.1 hg.2.2
  | enqueue n =>
    obtain ⟨hg, ⟨⟩⟩ := Option.ite_none_right_eq_some.1 h
    exact .enqueue hg.1 hg.2.1 hg.2.2
  | grow len mt =>
    obtain ⟨hg, ⟨⟩⟩ := Option.ite_none_right_eq_some.1 h
    exact .grow hg
  | shutdownReader =>
    obtain ⟨hg, ⟨⟩⟩ := Option.ite_none_right_eq_some.1 h
    exact .shutdownReader hg
  | shutdownWriter =>
    obtain ⟨hg, ⟨⟩⟩ := Option.ite_none_right_eq_some.1 h
    exact .shutdownWriter hg
  | detect =>
    simp only [localNext] at h
    split at h
    · rename_i hw
      obtain ⟨hg, ⟨⟩⟩ := Option.ite_none_right_eq_some.1 h
      exact .detect hw hg.1 hg.2.1 hg.2.2
    · cases h
  | deadlock =>
    simp only [localNext] at h
    split at h
    · rename_i hr
      obtain ⟨hg, ⟨⟩⟩ := Option.ite_none_right_eq_some.1 h
      exact .deadlock hr hg.1 hg.2
    · cases h
  | spuriousWakeup th =>
    cases h
    exact .spuriousWakeup

/-- The condition under which a step keeps the invariant: `Enqueue` and `Dequeue` do not throw. -/
def NotBroken (s : LocalState) : LocalAct → Prop
  | .enqueue _ => s.q.writeshutdown = false
  | .dequeue _ => s.q.readshutdown = false
  | _ => True

theorem Sound.next (h : Sound s) {l : LocalAct} (hok : s.NotBroken l) (hs : Step k s l s') : Sound s' := by
  cases hs with
  | getRawDequeuePtr _ _ hc => exact h.getRawDequeuePtr hc
  | dequeuePass hr =>
    have hat := h.reader
    rw [hr] at hat
    exact h.dequeueStep hr (dequeuePass_step h.carries hat.2)
  | readerWakes hr => exact h.readerWakes hr
  | dequeue _ hr hn => exact h.dequeue hr hn hok
  | getRawEnqueuePtr _ _ hc => exact h.getRawEnqueuePtr hc
  | enqueuePass hw =>
    have hat := h.writer
    rw [hw] at hat
    exact h.enqueueStep hw (enqueuePass_step h.carries hat.2)
  | writerWakes hw => exact h.writerWakes hw
  | write _ hp hoff => exact h.write _ hp hoff
  | enqueue _ hw hn => exact h.enqueue hw hn hok
  | @grow len mt _ =>
    rcases h.grow_cases (k := k) len mt with ⟨q', hs, hk, -⟩ | ⟨hs, -⟩
    · rw [hs]
      exact h.keep hk
    · rw [hs]
      exact h
  | shutdownReader => exact h.withBase rfl rfl rfl rfl
  | shutdownWriter => exact h.withBase rfl rfl rfl rfl
  | detect hw => exact h.detect hw
  | deadlock => exact h.withReader rfl rfl rfl rfl trivial
  | spuriousWakeup => exact h.withBase rfl rfl rfl rfl

end LocalState

end ProcessNetwork
