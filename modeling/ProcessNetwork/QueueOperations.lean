import ProcessNetwork.QueueContents

/-!
# The operations of a `ThresholdQueue`

One lemma for each operation, in terms of what the queue carries: `InternalEnqueue` appends the enqueue regions,
`InternalDequeue` drops the front, `UnlockedGrow` changes nothing but the lengths, as long as not both an enqueue and
a dequeue are outstanding, and a store through an enqueue pointer changes one byte of one enqueue region.  None of the
assertions fails.

The lemmas for `InternalEnqueue` and `InternalDequeue` let the caller set the fields of `QueueBase` first, since the
callers clear the flag of the outstanding operation before they call them.
-/

namespace ProcessNetwork

namespace ThresholdQueue

open ThresholdQueueBase (Holds Grown SameShape)

variable {q : ThresholdQueue} {f g : Nat → List Byte} {e d : Option Nat} {n t c count : Nat}

theorem Carries.beginEnqueue (h : q.Carries f none d) (ht : t ≤ q.queue.freespace) (hm : t ≤ q.queue.maxThreshold)
    {b : QueueBase} (hb : b.inenqueue = true) (hb' : b.indequeue = q.indequeue) :
    ({ q with toQueueBase := b } : ThresholdQueue).Carries f (some t) d := by
  refine ⟨h.holds, .inl hb, hb' ▸ h.indequeue, ⟨ht, hm⟩, h.dequeue_le, ?_⟩
  cases h.old with
  | none a1 a2 a3 => exact .none a1 a2 a3
  | enqueue _ _ _ a4 => cases a4
  | dequeue a1 a2 a3 a4 a5 a6 a7 a8 a9 a10 => exact .dequeue a1 a2 a3 a4 a5 a6 a7 a8 a9 a10

theorem Carries.beginDequeue (h : q.Carries f e none) (ht : t ≤ q.queue.count) (hm : t ≤ q.queue.maxThreshold)
    {b : QueueBase} (hb : b.inenqueue = q.inenqueue) (hb' : b.indequeue = true) :
    ({ q with toQueueBase := b } : ThresholdQueue).Carries f e (some t) := by
  refine ⟨h.holds, hb ▸ h.inenqueue, .inl hb', h.enqueue_le, ⟨ht, hm⟩, ?_⟩
  cases h.old with
  | none a1 a2 a3 => exact .none a1 a2 a3
  | enqueue a1 a2 a3 a4 a5 a6 a7 a8 a9 a10 => exact .enqueue a1 a2 a3 a4 a5 a6 a7 a8 a9 a10
  | dequeue _ _ _ a4 => cases a4

/-! ### InternalEnqueue -/

private theorem Carries.internalEnqueue_new (h : q.Carries f e d) (hu : q.enqueueUseOld = false)
    (hc : count ≤ e.getD 0) {b : QueueBase} (hb : b.inenqueue = false) (hb' : b.indequeue = q.indequeue) :
    ({ q with toQueueBase := b, queue := q.queue.enqueue count } : ThresholdQueue).Carries
      (fun c => f c ++ q.enqueueRegion c count) none d := by
  have hle := h.enqueue_le
  have hdle := h.dequeue_le
  have hregion : ∀ c, q.enqueueRegion c count = q.queue.enqueueRegion c count := by
    intro c; rw [enqueueRegion, enqueueQueue, hu]; rfl
  have hcount := ThresholdQueueBase.count_of_spans (h.holds.spans_enqueue (n := count) (by omega))
  refine ⟨?_, .inl hb, hb' ▸ h.indequeue, ⟨Nat.zero_le _, Nat.zero_le _⟩,
    ⟨by show _ ≤ (q.queue.enqueue count).count; omega, hdle.2⟩, ?_⟩
  · simp only [hregion]
    exact h.holds.enqueue (by omega) (by omega)
  · cases h.old with
    | none a1 a2 a3 => exact .none a1 a2 a3
    | enqueue _ a2 => rw [hu] at a2; cases a2
    | @dequeue old m g a1 a2 a3 a4 a5 a6 a7 a8 a9 a10 =>
      refine .dequeue a1 a2 a3 a4 a5 a6 a7 ?_ a9 a10
      intro c hc
      rw [a4, Option.getD_some] at hdle
      rw [a8 c hc, List.take_append_of_le_length]
      rw [h.holds.length_eq c hc]
      exact hdle.1

/-- The old ring with only the new bytes in it, from which `InternalEnqueue` copies. -/
private theorem holds_oldRing {old : ThresholdQueueBase} (hg : old.Holds g) (hn : n ≤ old.freespace)
    (hm : n ≤ old.maxThreshold) :
    ((old.dequeue old.count).enqueue n).Holds (fun c => old.enqueueRegion c n) ∧
      ((old.dequeue old.count).enqueue n).count = n := by
  have hd := hg.dequeue (Nat.le_refl _)
  have hcount : (old.dequeue old.count).count = 0 := by
    rw [ThresholdQueueBase.count_of_spans (hg.count_dequeue (Nat.le_refl _)), Nat.sub_self]
  have hfree : n ≤ (old.dequeue old.count).freespace := by
    have : old.freespace ≤ old.queueLength := Nat.sub_le _ _
    rw [ThresholdQueueBase.freespace, hcount]
    show n ≤ old.queueLength - 0
    omega
  constructor
  · refine (hd.enqueue hfree hm).congr fun c hc => ?_
    rw [List.drop_eq_nil_of_le (Nat.le_of_eq (hg.length_eq c hc)), List.nil_append]
    rfl
  · rw [ThresholdQueueBase.count_of_spans (hd.spans_enqueue hfree), hcount, Nat.zero_add]

theorem Carries.internalEnqueue (h : q.Carries f e d) (hc : count ≤ e.getD 0) {b : QueueBase}
    (hb : b.inenqueue = false) (hb' : b.indequeue = q.indequeue) :
    ∃ q', ({ q with toQueueBase := b } : ThresholdQueue).internalEnqueue count = .ok q' ∧ q'.toQueueBase = b ∧
      q'.Carries (fun c => f c ++ q.enqueueRegion c count) none d ∧ SameShape q.queue q'.queue ∧
      q'.queue.count = q.queue.count + count ∧ ∀ c, q'.dequeuePtr c = q.dequeuePtr c := by
  have hle := h.enqueue_le
  have hnew (hu : q.enqueueUseOld = false) :
      ∃ q', ({ q with toQueueBase := b } : ThresholdQueue).internalEnqueue count = .ok q' ∧ q'.toQueueBase = b ∧
        q'.Carries (fun c => f c ++ q.enqueueRegion c count) none d ∧ SameShape q.queue q'.queue ∧
        q'.queue.count = q.queue.count + count ∧ ∀ c, q'.dequeuePtr c = q.dequeuePtr c := by
    refine ⟨{ q with toQueueBase := b, queue := q.queue.enqueue count }, ?_, rfl, h.internalEnqueue_new hu hc hb hb',
      ThresholdQueueBase.sameShape_enqueue _ _,
      ThresholdQueueBase.count_of_spans (h.holds.spans_enqueue (n := count) (by omega)), ?_⟩
    · rw [ThresholdQueue.internalEnqueue]
      exact if_neg (by rw [hu]; decide)
    · intro c
      cases h.old with
      | none _ _ a3 => simp [dequeuePtr, dequeueQueue, a3, ThresholdQueueBase.enqueue, ThresholdQueueBase.channelStride]
      | enqueue _ a2 => rw [hu] at a2; cases a2
      | dequeue a1 _ a3 => simp [dequeuePtr, dequeueQueue, a3, a1]
  cases h.old with
  | none _ hu _ => exact hnew hu
  | dequeue _ hu => exact hnew hu
  | @enqueue old m g ho hu hud hm h1 h2 h3 hg hch hbuf =>
    rw [hm, Option.getD_some] at hc hle
    obtain ⟨hsrc, hsc⟩ := holds_oldRing hg (n := count) (by omega) (by omega)
    obtain ⟨src', queue, hok, hshape, hqueue, hcount, hhead, -⟩ := hsrc.drainInto h.holds hch
      (by omega) h3 (Nat.le_refl _)
    have hregion : ∀ c, q.enqueueRegion c count = old.enqueueRegion c count := by
      intro c; rw [enqueueRegion, enqueueQueue, hu, ho]; rfl
    have hdle := h.dequeue_le
    refine ⟨{ q with toQueueBase := b, queue := queue, enqueueUseOld := false, oldqueue := none }, ?_, rfl, ?_, hshape,
      by show queue.count = _; omega, ?_⟩
    · simp only [ThresholdQueue.internalEnqueue, hu, ho]
      show (ThresholdQueueBase.drainInto _ _ q.queue >>= _) = _
      rw [hok]
      rfl
    · refine ⟨?_, .inl hb, hb' ▸ h.indequeue, ⟨Nat.zero_le _, Nat.zero_le _⟩,
        ⟨by show _ ≤ queue.count; omega, by show _ ≤ queue.maxThreshold; rw [hshape.maxThreshold]; exact hdle.2⟩,
        .none rfl rfl hud⟩
      simp only [hregion]
      exact hqueue
    · intro c
      simp [dequeuePtr, dequeueQueue, hud, hhead, hshape.buf, hshape.queueLength, hshape.channelStride_eq]

/-! ### InternalDequeue -/

theorem Carries.internalDequeue (h : q.Carries f e d) (hc : count ≤ d.getD 0) {b : QueueBase}
    (hb : b.inenqueue = q.inenqueue) (hb' : b.indequeue = false) {q' : ThresholdQueue}
    (hq' : q' = ({ q with toQueueBase := b } : ThresholdQueue).internalDequeue count) :
    q'.toQueueBase = b ∧ q'.Carries (fun c => (f c).drop count) e none ∧ SameShape q.queue q'.queue ∧
      q'.queue.count = q.queue.count - count ∧ ∀ c, q'.enqueuePtr c = q.enqueuePtr c ∧
        ∀ n, q'.enqueueRegion c n = q.enqueueRegion c n := by
  have hle := h.enqueue_le
  have hdle := h.dequeue_le
  have hcount := ThresholdQueueBase.count_of_spans (h.holds.count_dequeue (n := count) (by omega))
  have hfree : q.queue.freespace ≤ (q.queue.dequeue count).freespace := by
    rw [ThresholdQueueBase.freespace, ThresholdQueueBase.freespace, hcount]
    show q.queue.queueLength - q.queue.count ≤ q.queue.queueLength - (q.queue.count - count)
    omega
  have hqueue : q'.queue = q.queue.dequeue count := by
    rw [hq', ThresholdQueue.internalDequeue]; split <;> rfl
  have hbase : q'.toQueueBase = b := by
    rw [hq', ThresholdQueue.internalDequeue]; split <;> rfl
  have heu : q'.enqueueUseOld = q.enqueueUseOld := by
    rw [hq', ThresholdQueue.internalDequeue]; split <;> rfl
  have hdu : q'.dequeueUseOld = false := by
    rw [hq', ThresholdQueue.internalDequeue]
    cases hu : q.dequeueUseOld <;> rfl
  have hold (hu : q.dequeueUseOld = false) : q'.oldqueue = q.oldqueue := by
    rw [hq', ThresholdQueue.internalDequeue]; simp [hu]
  have hptr : ∀ c, q'.enqueuePtr c = q.enqueuePtr c ∧ ∀ n, q'.enqueueRegion c n = q.enqueueRegion c n := by
    intro c
    cases h.old with
    | none _ a2 _ =>
      simp [enqueuePtr, enqueueRegion, enqueueQueue, heu, a2, hqueue, ThresholdQueueBase.dequeue,
        ThresholdQueueBase.enqueueRegion, ThresholdQueueBase.channelStride]
    | enqueue a1 a2 a3 => simp [enqueuePtr, enqueueRegion, enqueueQueue, heu, a2, hold a3, a1]
    | dequeue _ a2 =>
      simp [enqueuePtr, enqueueRegion, enqueueQueue, heu, a2, hqueue, ThresholdQueueBase.dequeue,
        ThresholdQueueBase.enqueueRegion, ThresholdQueueBase.channelStride]
  refine ⟨hbase, ⟨hqueue ▸ h.holds.dequeue (by omega), ?_, ?_, ?_, ⟨Nat.zero_le _, Nat.zero_le _⟩, ?_⟩,
    hqueue ▸ ThresholdQueueBase.sameShape_dequeue _ _, hqueue ▸ hcount, hptr⟩
  · rw [hbase, hb, heu]; exact h.inenqueue
  · rw [hbase]; exact .inl hb'
  · rw [hqueue]; exact ⟨by omega, hle.2⟩
  · cases h.old with
    | none a1 a2 a3 => exact .none ((hold a3).trans a1) (heu.trans a2) hdu
    | enqueue a1 a2 a3 a4 a5 a6 a7 a8 a9 a10 =>
      refine .enqueue ((hold a3).trans a1) (heu.trans a2) hdu a4 a5 a6 ?_ a8 ?_ ?_
      · rw [hqueue]; exact a7
      · rw [hqueue]; exact a9
      · rw [hqueue]; exact a10
    | dequeue _ a2 a3 =>
      refine .none ?_ (heu.trans a2) hdu
      rw [hq', ThresholdQueue.internalDequeue]; simp [a3]

/-! ### Operations that throw -/

/-- An `Enqueue` that throws leaves the old ring behind. -/
theorem Carries.abandonEnqueue (h : q.Carries f e d) {b : QueueBase} (hb : b.inenqueue = false)
    (hb' : b.indequeue = q.indequeue) :
    ({ q with toQueueBase := b } : ThresholdQueue).Carries f (if q.enqueueUseOld then some 0 else none) d := by
  refine ⟨h.holds, ?_, hb' ▸ h.indequeue, ?_, h.dequeue_le, ?_⟩
  · cases hu : q.enqueueUseOld with
    | true => exact .inr ⟨hb, rfl⟩
    | false => exact .inl hb
  · split_ifs <;> exact ⟨Nat.zero_le _, Nat.zero_le _⟩
  · cases h.old with
    | none a1 a2 a3 => exact .none a1 a2 a3
    | enqueue a1 a2 a3 _ _ _ a7 a8 a9 a10 =>
      exact .enqueue a1 a2 a3 (if_pos a2) (Nat.zero_le _) (Nat.zero_le _) a7 a8 a9 a10
    | dequeue a1 a2 a3 a4 a5 a6 a7 a8 a9 a10 => exact .dequeue a1 a2 a3 a4 a5 a6 a7 a8 a9 a10

/-- A `Dequeue` that throws leaves the old ring behind. -/
theorem Carries.abandonDequeue (h : q.Carries f e d) {b : QueueBase} (hb : b.inenqueue = q.inenqueue)
    (hb' : b.indequeue = false) :
    ({ q with toQueueBase := b } : ThresholdQueue).Carries f e (if q.dequeueUseOld then some 0 else none) := by
  refine ⟨h.holds, hb ▸ h.inenqueue, ?_, h.enqueue_le, ?_, ?_⟩
  · cases hu : q.dequeueUseOld with
    | true => exact .inr ⟨hb', rfl⟩
    | false => exact .inl hb'
  · split_ifs <;> exact ⟨Nat.zero_le _, Nat.zero_le _⟩
  · cases h.old with
    | none a1 a2 a3 => exact .none a1 a2 a3
    | enqueue a1 a2 a3 a4 a5 a6 a7 a8 a9 a10 => exact .enqueue a1 a2 a3 a4 a5 a6 a7 a8 a9 a10
    | dequeue a1 a2 a3 _ _ _ a7 _ a9 a10 =>
      exact .dequeue a1 a2 a3 (if_pos a3) (Nat.zero_le _) (Nat.zero_le _) a7 (fun _ _ => rfl) a9 a10

/-! ### UnlockedGrow -/

/-- What growing does: the lengths are raised, and the pointers of an outstanding operation stay what they were. -/
structure GrownTo (q : ThresholdQueue) (e d : Option Nat) (queueLen maxThresh : Nat) (q' : ThresholdQueue) : Prop where
  toQueueBase : q'.toQueueBase = q.toQueueBase
  queue : Grown q.queue queueLen maxThresh q'.queue
  enqueuePtr : e.isSome → ∀ c, q'.enqueuePtr c = q.enqueuePtr c
  enqueueRegion : e.isSome → ∀ c n, q'.enqueueRegion c n = q.enqueueRegion c n
  dequeuePtr : d.isSome → ∀ c, q'.dequeuePtr c = q.dequeuePtr c

theorem GrownTo.readshutdown {q' : ThresholdQueue} {queueLen maxThresh : Nat} (h : GrownTo q e d queueLen maxThresh q') :
    q'.readshutdown = q.readshutdown := by
  rw [h.toQueueBase]

theorem GrownTo.writeshutdown {q' : ThresholdQueue} {queueLen maxThresh : Nat} (h : GrownTo q e d queueLen maxThresh q') :
    q'.writeshutdown = q.writeshutdown := by
  rw [h.toQueueBase]

private theorem GrownTo.of_le {queueLen maxThresh : Nat}
    (h : queueLen ≤ q.queue.queueLength ∧ maxThresh ≤ q.queue.maxThreshold) : GrownTo q e d queueLen maxThresh q :=
  ⟨rfl, .of_le h, fun _ _ => rfl, fun _ _ _ => rfl, fun _ _ => rfl⟩

private theorem Grown.enqueue_le {r r' : ThresholdQueueBase} {queueLen maxThresh m : Nat}
    (h : Grown r queueLen maxThresh r') (hle : m ≤ r.freespace ∧ m ≤ r.maxThreshold) :
    m ≤ r'.freespace ∧ m ≤ r'.maxThreshold := by
  have := h.freespace_le
  have := h.maxThreshold
  omega

private theorem Grown.dequeue_le {r r' : ThresholdQueueBase} {queueLen maxThresh m : Nat}
    (h : Grown r queueLen maxThresh r') (hle : m ≤ r.count ∧ m ≤ r.maxThreshold) :
    m ≤ r'.count ∧ m ≤ r'.maxThreshold := by
  have := h.count
  have := h.maxThreshold
  omega

/-- Growing with no operation outstanding, or with the old ring already set aside: only `queue` is replaced. -/
private theorem Carries.grow_queue (h : q.Carries f e d) {queueLen maxThresh : Nat} {r : ThresholdQueueBase}
    (hr : r.Holds f) (hg : Grown q.queue queueLen maxThresh r) (hbuf : r.buf = q.queue.buf + 1) :
    ({ q with queue := r } : ThresholdQueue).Carries f e d := by
  refine ⟨hr, h.inenqueue, h.indequeue, Grown.enqueue_le hg h.enqueue_le, Grown.dequeue_le hg h.dequeue_le, ?_⟩
  have hmax := hg.maxThreshold
  cases h.old with
  | none a1 a2 a3 => exact .none a1 a2 a3
  | enqueue a1 a2 a3 a4 a5 a6 a7 a8 a9 a10 =>
    exact .enqueue a1 a2 a3 a4 a5 a6 (by show _ ≤ r.maxThreshold; omega) a8 (a9.trans hg.numChannels.symm)
      (by show _ < r.buf; omega)
  | dequeue a1 a2 a3 a4 a5 a6 a7 a8 a9 a10 =>
    refine .dequeue a1 a2 a3 a4 a5 a6 a7 ?_ (a9.trans hg.numChannels.symm) (by show _ < r.buf; omega)
    intro c hc
    exact a8 c (hg.numChannels ▸ hc)

/-- `UnlockedGrow` keeps what the queue carries, unless both an enqueue and a dequeue are outstanding. -/
theorem Carries.unlockedGrow (malloc : Malloc) (h : q.Carries f e d) (hin : q.inenqueue = e.isSome)
    (hid : q.indequeue = d.isSome) (hed : e = none ∨ d = none) (queueLen maxThresh : Nat) :
    ∃ q', q.unlockedGrow malloc queueLen maxThresh = .ok q' ∧ q'.Carries f e d ∧
      GrownTo q e d queueLen maxThresh q' := by
  by_cases hno : queueLen ≤ q.queue.queueLength ∧ maxThresh ≤ q.queue.maxThreshold
  · exact ⟨q, by rw [ThresholdQueue.unlockedGrow, if_pos hno], h, .of_le hno⟩
  have hboth : (!(q.inenqueue && q.indequeue)) = true := by
    rw [hin, hid]
    rcases hed with rfl | rfl <;> simp
  cases hold : q.oldqueue with
  | some old =>
    obtain ⟨r, m, hok, hr, hg, hbuf⟩ := h.holds.grow malloc false hno
    refine ⟨{ q with queue := r }, ?_, h.grow_queue hr hg hbuf, rfl, hg, ?_, ?_, ?_⟩
    · have h1 : (q.enqueueUseOld == q.inenqueue) = true := by
        rw [hin]
        cases h.old with
        | none a1 => rw [hold] at a1; cases a1
        | enqueue _ a2 _ a4 => rw [a2, a4]; rfl
        | dequeue _ a2 _ a4 =>
          subst a4
          rw [a2, hed.resolve_right (by simp)]; rfl
      have h2 : (q.dequeueUseOld == q.indequeue) = true := by
        rw [hid]
        cases h.old with
        | none a1 => rw [hold] at a1; cases a1
        | enqueue _ _ a3 a4 =>
          subst a4
          rw [a3, hed.resolve_left (by simp)]; rfl
        | dequeue _ _ a3 a4 => rw [a3, a4]; rfl
      rw [ThresholdQueue.unlockedGrow, if_neg hno, hboth, hold, h1, h2, hok]
      rfl
    -- a ring that is set aside for one operation leaves the other without a pointer
    · intro he c
      cases h.old with
      | none a1 => rw [hold] at a1; cases a1
      | enqueue a1 a2 => simp [ThresholdQueue.enqueuePtr, enqueueQueue, a1, a2]
      | dequeue _ _ _ a4 => subst a4; rw [hed.resolve_right (by simp)] at he; cases he
    · intro he c n
      cases h.old with
      | none a1 => rw [hold] at a1; cases a1
      | enqueue a1 a2 => simp [ThresholdQueue.enqueueRegion, enqueueQueue, a1, a2]
      | dequeue _ _ _ a4 => subst a4; rw [hed.resolve_right (by simp)] at he; cases he
    · intro hd c
      cases h.old with
      | none a1 => rw [hold] at a1; cases a1
      | enqueue _ _ _ a4 => subst a4; rw [hed.resolve_left (by simp)] at hd; cases hd
      | dequeue a1 _ a3 => simp [ThresholdQueue.dequeuePtr, dequeueQueue, a1, a3]
  | none =>
    have huse : q.enqueueUseOld = false ∧ q.dequeueUseOld = false := by
      cases h.old with
      | none _ a2 a3 => exact ⟨a2, a3⟩
      | enqueue a1 => rw [hold] at a1; cases a1
      | dequeue a1 => rw [hold] at a1; cases a1
    by_cases hidle : e = none ∧ d = none
    · obtain ⟨rfl, rfl⟩ := hidle
      obtain ⟨r, m, hok, hr, hg, hbuf⟩ := h.holds.grow malloc false hno
      refine ⟨{ q with queue := r }, ?_, h.grow_queue hr hg hbuf, rfl, hg, by simp, by simp, by simp⟩
      have hidle : (!q.inenqueue && !q.indequeue) = true := by rw [hin, hid]; rfl
      rw [ThresholdQueue.unlockedGrow, if_neg hno, hboth, hold, hidle, hok]
      rfl
    · obtain ⟨r, m, hok, hr, hg, hbuf⟩ := h.holds.grow malloc true hno
      have hbusy : (!q.inenqueue && !q.indequeue) = false := by
        rw [hin, hid]
        cases e <;> cases d <;> simp_all
      have hmax := hg.maxThreshold
      let old : ThresholdQueueBase := { q.queue with elementsDequeued := m }
      have hold' : old.Holds f := h.holds.withCounters _ _
      refine ⟨{ q with queue := r, oldqueue := some old, enqueueUseOld := q.inenqueue, dequeueUseOld := q.indequeue },
        ?_, ?_, rfl, hg, ?_, ?_, ?_⟩
      · rw [ThresholdQueue.unlockedGrow, if_neg hno, hboth, hold, hbusy, hok]
        rfl
      · refine ⟨hr, .inl hin, .inl hid, Grown.enqueue_le hg h.enqueue_le, Grown.dequeue_le hg h.dequeue_le, ?_⟩
        have hle := h.enqueue_le
        have hdle := h.dequeue_le
        cases e with
        | some n =>
          obtain rfl := hed.resolve_left (by simp)
          exact .enqueue rfl hin hid rfl hle.1 hle.2 (by show q.queue.maxThreshold ≤ r.maxThreshold; omega)
            hold' hg.numChannels.symm (by show q.queue.buf < r.buf; omega)
        | none =>
          cases d with
          | none => exact absurd ⟨rfl, rfl⟩ hidle
          | some n =>
            exact .dequeue rfl hin hid rfl hdle.1 hdle.2 hold' (fun _ _ => rfl) hg.numChannels.symm
              (by show q.queue.buf < r.buf; omega)
      · intro he c
        rw [he] at hin
        simp [ThresholdQueue.enqueuePtr, enqueueQueue, hin, huse.1, old, ThresholdQueueBase.channelStride]
      · intro he c n
        rw [he] at hin
        simp [ThresholdQueue.enqueueRegion, enqueueQueue, hin, huse.1, old, ThresholdQueueBase.channelStride,
          ThresholdQueueBase.enqueueRegion]
      · intro hd c
        rw [hd] at hid
        simp [ThresholdQueue.dequeuePtr, dequeueQueue, hid, huse.2, old, ThresholdQueueBase.channelStride]

/-- An `Enqueue` or a `Dequeue` that threw has left the old ring behind. -/
def Stale (q : ThresholdQueue) : Prop :=
  q.inenqueue = false ∧ q.enqueueUseOld = true ∨ q.indequeue = false ∧ q.dequeueUseOld = true

/-- With the old ring left behind the assertions of `UnlockedGrow` fail. -/
private theorem Carries.unlockedGrow_stale (malloc : Malloc) (h : q.Carries f e d) (hs : q.Stale)
    (hed : ¬(q.inenqueue = true ∧ q.indequeue = true)) {queueLen maxThresh : Nat}
    (hno : ¬(queueLen ≤ q.queue.queueLength ∧ maxThresh ≤ q.queue.maxThreshold)) :
    ∃ fault, q.unlockedGrow malloc queueLen maxThresh = .error fault := by
  have hboth : (!(q.inenqueue && q.indequeue)) = true := by
    simpa only [Bool.not_eq_true', ← Bool.not_eq_true, Bool.and_eq_true] using hed
  rw [ThresholdQueue.unlockedGrow, if_neg hno, hboth]
  cases h.old with
  | none _ h2 h3 => rcases hs with hs | hs <;> simp_all
  | enqueue h1 h2 h3 =>
    have hin : q.inenqueue = false := by
      rcases hs with hs | hs
      · exact hs.1
      · rw [h3] at hs
        exact absurd hs.2 (by decide)
    rw [h1, h2, hin]
    exact ⟨_, rfl⟩
  | dequeue h1 h2 h3 =>
    have hid : q.indequeue = false := by
      rcases hs with hs | hs
      · rw [h2] at hs
        exact absurd hs.2 (by decide)
      · exact hs.1
    rw [h1, h2, h3, hid]
    cases q.inenqueue <;> exact ⟨_, rfl⟩

/-- What `UnlockedGrow` does in any state: it fails only if an old ring was left behind. -/
theorem Carries.unlockedGrow_cases (malloc : Malloc) (h : q.Carries f e d)
    (hed : ¬(q.inenqueue = true ∧ q.indequeue = true)) (queueLen maxThresh : Nat) :
    (∃ q', q.unlockedGrow malloc queueLen maxThresh = .ok q' ∧ q'.Carries f e d ∧
      GrownTo q e d queueLen maxThresh q') ∨
    q.Stale ∧ ∃ fault, q.unlockedGrow malloc queueLen maxThresh = .error fault := by
  by_cases hno : queueLen ≤ q.queue.queueLength ∧ maxThresh ≤ q.queue.maxThreshold
  · exact .inl ⟨q, by rw [ThresholdQueue.unlockedGrow, if_pos hno], h, .of_le hno⟩
  by_cases hs : q.Stale
  · exact .inr ⟨hs, h.unlockedGrow_stale malloc hs hed hno⟩
  · rw [Stale, not_or] at hs
    have hin := h.inenqueue.resolve_right hs.1
    have hid := h.indequeue.resolve_right hs.2
    refine .inl (h.unlockedGrow malloc hin hid ?_ queueLen maxThresh)
    rw [hin, hid, Option.isSome_iff_ne_none, Option.isSome_iff_ne_none] at hed
    by_cases he : e = none
    · exact .inl he
    · exact .inr (by simpa [he] using hed)

/-! ### Writing through an enqueue pointer -/

/-- A ring with one byte of an enqueue region replaced. -/
private def setRegion (r : ThresholdQueueBase) (c off : Nat) (b : Byte) : ThresholdQueueBase :=
  { r with base := Function.update r.base (c * r.channelStride + r.tail % r.queueLength + off) b }

private theorem setRegion_apply {r : ThresholdQueueBase} {c c' off x n : Nat} {b : Byte} (hn : n ≤ r.maxThreshold)
    (hoff : off < n) (hx : x < r.channelStride) :
    (setRegion r c off b).base (c' * r.channelStride + x) =
      if c' = c ∧ x = r.tail % r.queueLength + off then b else r.base (c' * r.channelStride + x) := by
  have hlt := r.add_lt_channelStride r.tail hn hoff
  rw [setRegion]
  show Function.update r.base _ b _ = _
  rw [Function.update_apply]
  by_cases hcc : c' = c
  · subst hcc
    congr 1
    exact propext ⟨fun h => ⟨rfl, by omega⟩, fun h => by omega⟩
  · have := stride_disjoint hx hcc
    rw [Nat.add_mul] at this
    rw [if_neg (by omega), if_neg (by omega)]

private theorem holds_setRegion {r : ThresholdQueueBase} (h : r.Holds g) {off : Nat} (b : Byte) (hn : n ≤ r.freespace)
    (hm : n ≤ r.maxThreshold) (hoff : off < n) : (setRegion r c off b).Holds g := by
  refine h.write hn fun c' _ x hx hne => ?_
  change (setRegion r c off b).base _ ≠ _ at hne
  rw [setRegion_apply hm hoff hx] at hne
  split at hne
  · rename_i h; exact ⟨off, hoff, h.2⟩
  · exact absurd rfl hne

private theorem enqueueRegion_setRegion {r : ThresholdQueueBase} {c' off k : Nat} (b : Byte) (hm : n ≤ r.maxThreshold)
    (hoff : off < n) (hk : k ≤ n) :
    (setRegion r c off b).enqueueRegion c' k =
      if c' = c then (r.enqueueRegion c' k).set off b else r.enqueueRegion c' k := by
  apply List.ext_getElem
  · split <;> simp [ThresholdQueueBase.enqueueRegion]
  · intro i hi _
    have hik : i < k := by simpa [ThresholdQueueBase.enqueueRegion] using hi
    have : (setRegion r c off b).base (c' * r.channelStride + (r.tail % r.queueLength + i)) = _ :=
      setRegion_apply hm hoff (r.add_lt_channelStride r.tail hm (show i < n by omega))
    rw [← Nat.add_assoc] at this
    have hval : ((setRegion r c off b).enqueueRegion c' k)[i] =
        if c' = c ∧ r.tail % r.queueLength + i = r.tail % r.queueLength + off then b
        else r.base (c' * r.channelStride + r.tail % r.queueLength + i) := by
      rw [← this]
      exact getElem_slice _
    rw [hval]
    by_cases hcc : c' = c
    · subst hcc
      simp only [true_and, if_pos, List.getElem_set, ThresholdQueueBase.enqueueRegion, getElem_slice]
      by_cases ho : off = i
      · rw [if_pos (by omega), if_pos ho]
      · rw [if_neg (by omega), if_neg ho]
    · simp only [hcc, false_and, if_false, ThresholdQueueBase.enqueueRegion, getElem_slice]

/-- What a store through an enqueue pointer of channel `c` does: it replaces one byte of the enqueue region. -/
structure StoredTo (q : ThresholdQueue) (n c off : Nat) (b : Byte) (q' : ThresholdQueue) : Prop where
  toQueueBase : q'.toQueueBase = q.toQueueBase
  queue : SameShape q.queue q'.queue
  count : q'.queue.count = q.queue.count
  enqueuePtr : ∀ c', q'.enqueuePtr c' = q.enqueuePtr c'
  dequeuePtr : ∀ c', q'.dequeuePtr c' = q.dequeuePtr c'
  enqueueRegion : ∀ c', ∀ k ≤ n, q'.enqueueRegion c' k =
    if c' = c then (q.enqueueRegion c' k).set off b else q.enqueueRegion c' k

theorem Carries.store (h : q.Carries f (some n) d) {off : Nat} (hoff : off < n) (c : Nat) (b : Byte) :
    ∃ q', q.store (q.enqueuePtr c) off b = some q' ∧ q'.Carries f (some n) d ∧ StoredTo q n c off b q' := by
  have hle := h.enqueue_le
  rw [Option.getD_some] at hle
  have hnew (hu : q.enqueueUseOld = false) :
      ∃ q', q.store (q.enqueuePtr c) off b = some q' ∧ q'.Carries f (some n) d ∧ StoredTo q n c off b q' := by
    refine ⟨{ q with queue := setRegion q.queue c off b }, ?_, ?_, rfl, ⟨rfl, rfl, rfl, rfl⟩, rfl, ?_, ?_, ?_⟩
    · rw [ThresholdQueue.store, enqueuePtr, enqueueQueue, hu]
      simp [setRegion]
    · refine ⟨holds_setRegion h.holds b hle.1 hle.2 hoff, h.inenqueue, h.indequeue, hle, h.dequeue_le, ?_⟩
      cases h.old with
      | none a1 a2 a3 => exact .none a1 a2 a3
      | enqueue _ a2 => rw [hu] at a2; cases a2
      | dequeue a1 a2 a3 a4 a5 a6 a7 a8 a9 a10 => exact .dequeue a1 a2 a3 a4 a5 a6 a7 a8 a9 a10
    · intro c'
      simp [ThresholdQueue.enqueuePtr, enqueueQueue, hu, setRegion, ThresholdQueueBase.channelStride]
    · intro c'
      cases h.old with
      | none _ _ a3 =>
        simp [ThresholdQueue.dequeuePtr, dequeueQueue, a3, setRegion, ThresholdQueueBase.channelStride]
      | enqueue _ a2 => rw [hu] at a2; cases a2
      | dequeue a1 _ a3 => simp [ThresholdQueue.dequeuePtr, dequeueQueue, a3, a1]
    · intro c' k hk
      simp only [ThresholdQueue.enqueueRegion, enqueueQueue, hu]
      exact enqueueRegion_setRegion b hle.2 hoff hk
  cases h.old with
  | none _ hu _ => exact hnew hu
  | dequeue _ hu => exact hnew hu
  | @enqueue old m g ho hu hud hm h1 h2 h3 hg hch hbuf =>
    cases hm
    refine ⟨{ q with oldqueue := some (setRegion old c off b) }, ?_, ?_, rfl, .refl _, rfl, ?_, ?_, ?_⟩
    · rw [ThresholdQueue.store, enqueuePtr, enqueueQueue, hu, ho]
      simp [setRegion, Nat.ne_of_gt hbuf]
    · exact ⟨h.holds, h.inenqueue, h.indequeue, hle, h.dequeue_le,
        .enqueue rfl hu hud rfl h1 h2 h3 (holds_setRegion hg b h1 h2 hoff) hch hbuf⟩
    · intro c'
      simp [ThresholdQueue.enqueuePtr, enqueueQueue, hu, ho, setRegion, ThresholdQueueBase.channelStride]
    · intro c'
      simp [ThresholdQueue.dequeuePtr, dequeueQueue, hud]
    · intro c' k hk
      simp only [ThresholdQueue.enqueueRegion, enqueueQueue, hu, ho]
      exact enqueueRegion_setRegion b h2 hoff hk

/-- What has been written so far is in the enqueue regions. -/
theorem StoredTo.getElem?_of_written {q' : ThresholdQueue} {off : Nat} {b : Byte} {w : Nat → Nat → Option Byte}
    (h : StoredTo q n c off b q') (hoff : off < n) (hw : ∀ c j x, w c j = some x → (q.enqueueRegion c n)[j]? = some x)
    {c' j : Nat} {x : Byte} (hx : Function.update w c (Function.update (w c) off (some b)) c' j = some x) :
    (q'.enqueueRegion c' n)[j]? = some x := by
  rw [h.enqueueRegion c' n (Nat.le_refl n)]
  by_cases hcc : c' = c
  · subst hcc
    rw [Function.update_self, Function.update_apply] at hx
    rw [if_pos rfl, List.getElem?_set]
    by_cases hj : j = off
    · subst hj
      rw [if_pos rfl] at hx
      have hlen : (q.enqueueRegion c' n).length = n := length_slice _ _ _
      rw [if_pos rfl, if_pos (by omega), hx]
    · rw [if_neg hj] at hx
      rw [if_neg (Ne.symm hj)]
      exact hw _ _ _ hx
  · rw [Function.update_of_ne hcc] at hx
    rw [if_neg hcc]
    exact hw _ _ _ hx

/-- The bytes written by hand and the bytes of the region agree. -/
theorem mapIdx_written_eq {w : Nat → Option Byte} {m : Nat}
    (hw : ∀ j x, w j = some x → n ≤ m ∧ (q.enqueueRegion c m)[j]? = some x) :
    (q.enqueueRegion c n).mapIdx (fun i b => (w i).getD b) = q.enqueueRegion c n := by
  apply List.ext_getElem?
  intro i
  rw [List.getElem?_mapIdx]
  cases hi : w i with
  | none => simp
  | some b =>
    obtain ⟨hn, hb⟩ := hw i b hi
    by_cases hlt : i < n
    · have hsame : (q.enqueueRegion c n)[i]? = (q.enqueueRegion c m)[i]? := by
        simp [ThresholdQueue.enqueueRegion, ThresholdQueueBase.enqueueRegion, slice, hlt, Nat.lt_of_lt_of_le hlt hn]
      rw [hsame, hb]
      rfl
    · have hpast : (q.enqueueRegion c n).length ≤ i := by
        rw [ThresholdQueue.enqueueRegion, ThresholdQueueBase.enqueueRegion, length_slice]
        omega
      rw [List.getElem?_eq_none hpast]
      rfl

end ThresholdQueue

end ProcessNetwork
