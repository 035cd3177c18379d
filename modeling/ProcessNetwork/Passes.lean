import ProcessNetwork.QueueBase

/-!
# What a pass of a blocking loop does

The passes of `GetRawDequeuePtr` and `GetRawEnqueuePtr` are analysed once, for every queue class: while the queue
carries what `QueueBase` says is outstanding, a pass returns the pointer of the outstanding operation, or begins an
operation when the ring can serve it, and otherwise does one of the four things that its tests select.  No assertion
fails on the way to the growth.  The growth of a local queue is analysed at the end.
-/

namespace ProcessNetwork

namespace QueueBase

/-- The enqueue that is outstanding according to the flags. -/
def outEnqueue (b : QueueBase) : Option Nat := if b.inenqueue then some b.enqueuethresh else none

def outDequeue (b : QueueBase) : Option Nat := if b.indequeue then some b.dequeuethresh else none

theorem isSome_outEnqueue (b : QueueBase) : b.outEnqueue.isSome = b.inenqueue := by
  unfold outEnqueue; cases b.inenqueue <;> rfl

theorem isSome_outDequeue (b : QueueBase) : b.outDequeue.isSome = b.indequeue := by
  unfold outDequeue; cases b.indequeue <;> rfl

theorem outEnqueue_of_not {b : QueueBase} (h : b.inenqueue = false) : b.outEnqueue = none := by
  rw [outEnqueue, h]; rfl

theorem outDequeue_of_not {b : QueueBase} (h : b.indequeue = false) : b.outDequeue = none := by
  rw [outDequeue, h]; rfl

/-- What holds in the loop of `GetRawEnqueuePtr(thresh, chan)`. -/
def Enqueuing (b : QueueBase) (thresh : Nat) : Prop :=
  if b.inenqueue then thresh ≤ b.enqueuethresh else b.enqueuethresh = thresh

def Dequeuing (b : QueueBase) (thresh : Nat) : Prop :=
  if b.indequeue then thresh ≤ b.dequeuethresh else b.dequeuethresh = thresh

def shutdown (b : QueueBase) : Bool := b.readshutdown || b.writeshutdown

end QueueBase

namespace Queue

open ThresholdQueue (Carries GrownTo)

variable {σ : Type} [Queue σ] {k : KernelBase} {q : σ} {f : Nat → List Byte} {e d : Option Nat} {t c : Nat} {grown : Bool}

/-- No dequeue is outstanding and the ring cannot serve one of `t` bytes. -/
def Starved (q : σ) (t : Nat) : Prop :=
  (base q).indequeue = false ∧ ((threshold q).queue.count < t ∨ unlockedMaxThreshold q < t)

/-- No enqueue is outstanding and the ring cannot serve one of `t` bytes. -/
def Crowded (q : σ) (t : Nat) : Prop :=
  (base q).inenqueue = false ∧ (unlockedFreespace q < t ∨ unlockedMaxThreshold q < t)

theorem growPass_ne_returns (q : σ) (len mt : Nat) {ptr : Option Ptr} {q' : σ} :
    growPass k q len mt ≠ .returns ptr q' := by
  unfold growPass
  split <;> exact nofun

inductive DequeueOutcome (k : KernelBase) (q : σ) (t c : Nat) : Pass σ → Prop
  | pointer : (base q).indequeue = true ∨ t ≤ (threshold q).queue.count ∧ t ≤ unlockedMaxThreshold q →
      DequeueOutcome k q t c
        (.returns (some ((threshold q).dequeuePtr c)) (withBase q { base q with indequeue := true }))
  | null : Starved q t → (base q).writeshutdown = true → DequeueOutcome k q t c (.returns none q)
  | broken : Starved q t → (base q).writeshutdown = false → (base q).readshutdown = true →
      DequeueOutcome k q t c (.broken q)
  | grows (len : Nat) : Starved q t → (base q).shutdown = false → k.growQueueMaxThreshold = true →
      (unlockedMaxThreshold q < t ∧ len = u32 (2 * t) ∨
        t ≤ unlockedMaxThreshold q ∧ writeBlocked q = true ∧ len = u32 ((base q).writerequest + t)) →
      DequeueOutcome k q t c (growPass k q len t)
  | waits : Starved q t → (base q).shutdown = false →
      (k.growQueueMaxThreshold = true → t ≤ unlockedMaxThreshold q ∧ writeBlocked q = false) →
      DequeueOutcome k q t c (.waits (withBase q { base q with readrequest := t }))

theorem dequeuePass_outcome (h : (threshold q).Carries f e (base q).outDequeue)
    (ht : (base q).Dequeuing t) : DequeueOutcome k q t c (dequeuePass k q t c) := by
  unfold QueueBase.Dequeuing at ht
  by_cases hin : (base q).indequeue = true
  · rw [QueueBase.outDequeue, if_pos hin] at h
    rw [if_pos hin] at ht
    rw [dequeuePass, h.internalGetRawDequeuePtr_some hin ht]
    exact .pointer (.inl hin)
  have hin : (base q).indequeue = false := by simpa using hin
  rw [QueueBase.outDequeue_of_not hin] at h
  rw [dequeuePass, h.internalGetRawDequeuePtr_none]
  by_cases hs : t > (threshold q).queue.count ∨ t > (threshold q).queue.maxThreshold
  · have hs' : Starved q t := ⟨hin, hs⟩
    rw [if_pos hs]
    dsimp only
    split_ifs with hw hr hm hb
    · exact .null hs' hw
    · exact .broken hs' (by simpa using hw) hr
    · simp only [Bool.and_eq_true, decide_eq_true_eq] at hm
      exact .grows _ hs' (by simp [QueueBase.shutdown, hw, hr]) hm.2 (.inl ⟨hm.1, rfl⟩)
    · simp only [Bool.and_eq_true, decide_eq_true_eq] at hm hb
      exact .grows _ hs' (by simp [QueueBase.shutdown, hw, hr]) hb.2
        (.inr ⟨Nat.not_lt.1 fun h => hm ⟨h, hb.2⟩, hb.1, rfl⟩)
    · simp only [Bool.and_eq_true, decide_eq_true_eq] at hm hb
      refine .waits hs' (by simp [QueueBase.shutdown, hw, hr]) fun hk => ⟨Nat.not_lt.1 fun h => hm ⟨h, hk⟩, ?_⟩
      simpa using fun h => hb ⟨h, hk⟩
  · rw [if_neg hs]
    exact .pointer (.inr (by simpa [unlockedMaxThreshold] using hs))

inductive EnqueueOutcome (k : KernelBase) (q : σ) (t c : Nat) (grown : Bool) : Pass (σ × Bool) → Prop
  | pointer : (base q).inenqueue = true ∨ t ≤ unlockedFreespace q ∧ t ≤ unlockedMaxThreshold q →
      EnqueueOutcome k q t c grown
        (.returns (some ((threshold q).enqueuePtr c)) (withBase q { base q with inenqueue := true }, grown))
  | broken : Crowded q t → (base q).shutdown = true → EnqueueOutcome k q t c grown (.broken (q, grown))
  | raises : Crowded q t → (base q).shutdown = false → k.growQueueMaxThreshold = true → unlockedMaxThreshold q < t →
      EnqueueOutcome k q t c grown ((growPass k q (u32 (2 * t)) t).map (·, grown))
  | grows : Crowded q t → (base q).shutdown = false → k.growQueueMaxThreshold = true → t ≤ unlockedMaxThreshold q →
      grown = false → readBlocked q = true →
      EnqueueOutcome k q t c grown ((growPass k q (u32 ((base q).readrequest + t)) t).map (·, true))
  | waits : Crowded q t → (base q).shutdown = false →
      (k.growQueueMaxThreshold = true → t ≤ unlockedMaxThreshold q ∧ (grown = true ∨ readBlocked q = false)) →
      EnqueueOutcome k q t c grown (.waits (withBase q { base q with writerequest := t }, grown))

theorem enqueuePass_outcome (h : (threshold q).Carries f (base q).outEnqueue d)
    (ht : (base q).Enqueuing t) : EnqueueOutcome k q t c grown (enqueuePass k q t c grown) := by
  unfold QueueBase.Enqueuing at ht
  by_cases hin : (base q).inenqueue = true
  · rw [QueueBase.outEnqueue, if_pos hin] at h
    rw [if_pos hin] at ht
    rw [enqueuePass, h.internalGetRawEnqueuePtr_some hin ht]
    exact .pointer (.inl hin)
  have hin : (base q).inenqueue = false := by simpa using hin
  rw [QueueBase.outEnqueue_of_not hin] at h
  rw [enqueuePass, h.internalGetRawEnqueuePtr_none]
  by_cases hs : t > (threshold q).queue.freespace ∨ t > (threshold q).queue.maxThreshold
  · have hs' : Crowded q t := ⟨hin, hs⟩
    rw [if_pos hs]
    dsimp only
    split_ifs with hw hm hb
    · exact .broken hs' hw
    · simp only [Bool.and_eq_true, decide_eq_true_eq] at hm
      exact .raises hs' (by simpa [QueueBase.shutdown] using hw) hm.2 hm.1
    · simp only [Bool.and_eq_true, decide_eq_true_eq, Bool.not_eq_true'] at hm hb
      exact .grows hs' (by simpa [QueueBase.shutdown] using hw) hb.2 (Nat.not_lt.1 fun h => hm ⟨h, hb.2⟩) hb.1.1 hb.1.2
    · simp only [Bool.and_eq_true, decide_eq_true_eq, Bool.not_eq_true'] at hm hb
      refine .waits hs' (by simpa [QueueBase.shutdown] using hw) fun hk => ⟨Nat.not_lt.1 fun h => hm ⟨h, hk⟩, ?_⟩
      cases grown with
      | true => exact .inl rfl
      | false => exact .inr (by simpa using fun h => hb ⟨⟨rfl, h⟩, hk⟩)
  · rw [if_neg hs]
    exact .pointer (.inr (by simpa [unlockedMaxThreshold, unlockedFreespace] using hs))

/-! ### Local queues -/

/-- `NotifyFreespace` only wakes the sleeping threads. -/
theorem notifyFreespace_eq (q : ThresholdQueue) : ∃ cond, notifyFreespace q = { q with cond := cond } := by
  unfold notifyFreespace
  split_ifs
  · exact ⟨_, rfl⟩
  · exact ⟨q.cond, rfl⟩

theorem notifyData_eq (q : ThresholdQueue) : ∃ cond, notifyData q = { q with cond := cond } := by
  unfold notifyData
  split_ifs
  · exact ⟨_, rfl⟩
  · exact ⟨q.cond, rfl⟩

/-- A local queue with at most one operation outstanding grows, and everybody is woken. -/
theorem growPass_local {q : ThresholdQueue} (h : q.Carries f q.outEnqueue q.outDequeue)
    (hed : q.inenqueue = false ∨ q.indequeue = false) (len : Nat) :
    ∃ q', growPass k q len t = .again { q' with cond := fun _ => false } ∧
      q'.Carries f q.outEnqueue q.outDequeue ∧ GrownTo q q.outEnqueue q.outDequeue len t q' := by
  obtain ⟨q', hok, hc, hg⟩ := h.unlockedGrow k.malloc q.isSome_outEnqueue.symm q.isSome_outDequeue.symm
    (hed.imp QueueBase.outEnqueue_of_not QueueBase.outDequeue_of_not) len t
  refine ⟨q', ?_, hc, hg⟩
  have hdone : unlockedGrow k q len t = .ok (.done q') := by
    show (q.unlockedGrow k.malloc len t).map GrowResult.done = _
    rw [hok]
    rfl
  rw [growPass, hdone]
  rfl

end Queue

end ProcessNetwork
