import ProcessNetwork.LocalSound

/-!
# A local queue never shrinks

`Grow` raises the length and the threshold of a ring to what is asked for and leaves them alone otherwise, whether or not
the queue is in order; and nothing else changes them.
-/

namespace ProcessNetwork

namespace ThresholdQueueBase

variable {src src' dst dst' q q' : ThresholdQueueBase}

private theorem sameShape_copyChannels {n c : Nat} (h : copyChannels src dst n c = .ok dst') : SameShape dst dst' := by
  induction c generalizing dst' with
  | zero =>
    cases h
    exact .refl _
  | succ c ih =>
    obtain ⟨d, hd, h⟩ := bind_eq_ok h
    have hshape := ih hd
    revert h
    cases src.getRawDequeuePtr n c with
    | none => exact nofun
    | some a =>
      cases d.getRawEnqueuePtr n c with
      | none => exact nofun
      | some b =>
        rintro ⟨⟩
        exact ⟨hshape.queueLength, hshape.maxThreshold, hshape.numChannels, hshape.buf⟩

private theorem sameShape_drainInto {passes : Nat} (h : drainInto passes src dst = .ok (src', dst')) :
    SameShape dst dst' := by
  induction passes generalizing src dst with
  | zero =>
    rw [drainInto] at h
    split_ifs at h
    cases h
    exact .refl _
  | succ passes ih =>
    rw [drainInto] at h
    by_cases hc : src.count = 0
    · rw [if_pos hc] at h
      cases h
      exact .refl _
    · rw [if_neg hc] at h
      obtain ⟨d, hd, h⟩ := bind_eq_ok h
      have h1 := sameShape_copyChannels hd
      have h2 := ih h
      exact h1.trans ⟨h2.queueLength, h2.maxThreshold, h2.numChannels, h2.buf⟩

/-- The lengths after a `Grow` that returns. -/
theorem lengths_grow {malloc : Malloc} {len mt : Nat} {copy : Bool} {old : Option ThresholdQueueBase}
    (h : q.grow malloc len mt copy = .ok (q', old)) :
    q'.queueLength = max q.queueLength (max len mt) ∧ q'.maxThreshold = max q.maxThreshold mt := by
  have hle := q.maxThreshold_le
  rw [grow] at h
  by_cases hno : len ≤ q.queueLength ∧ mt ≤ q.maxThreshold
  · rw [if_pos hno] at h
    cases h
    omega
  · rw [if_neg hno] at h
    obtain ⟨⟨src, dst⟩, hd, h⟩ := bind_eq_ok h
    cases h
    have hshape := sameShape_drainInto hd
    have hpos := q.one_le_maxThreshold
    have hlen := hshape.queueLength
    have hmt := hshape.maxThreshold
    simp only [allocateBuf] at hlen hmt
    refine ⟨hlen.trans ?_, hmt.trans ?_⟩ <;> split_ifs <;> omega

end ThresholdQueueBase

namespace ThresholdQueue

variable {q q' q'' : ThresholdQueue}

/-- The ring of `q'` is not smaller than that of `q`. -/
structure Larger (q q' : ThresholdQueue) : Prop where
  queueLength : q.queue.queueLength ≤ q'.queue.queueLength
  maxThreshold : q.queue.maxThreshold ≤ q'.queue.maxThreshold

theorem Larger.refl (q : ThresholdQueue) : Larger q q := ⟨Nat.le_refl _, Nat.le_refl _⟩

theorem Larger.trans (h : Larger q q') (h' : Larger q' q'') : Larger q q'' :=
  ⟨h.1.trans h'.1, h.2.trans h'.2⟩

theorem lengths_unlockedGrow {malloc : Malloc} {len mt : Nat} (h : q.unlockedGrow malloc len mt = .ok q') :
    q'.queue.queueLength = max q.queue.queueLength (max len mt) ∧
      q'.queue.maxThreshold = max q.queue.maxThreshold mt := by
  have hle := q.queue.maxThreshold_le
  unfold unlockedGrow at h
  split_ifs at h with hno ho hidle
  · cases h
    omega
  · obtain ⟨_, -, h⟩ := bind_eq_ok h
    obtain ⟨_, -, h⟩ := bind_eq_ok h
    obtain ⟨_, -, h⟩ := bind_eq_ok h
    obtain ⟨r, hr, h⟩ := bind_eq_ok h
    cases h
    exact ThresholdQueueBase.lengths_grow hr
  all_goals
    obtain ⟨_, -, h⟩ := bind_eq_ok h
    obtain ⟨r, hr, h⟩ := bind_eq_ok h
    cases h
    exact ThresholdQueueBase.lengths_grow hr

theorem Larger.of_unlockedGrow {malloc : Malloc} {len mt : Nat} (h : q.unlockedGrow malloc len mt = .ok q') :
    Larger q q' := by
  obtain ⟨h1, h2⟩ := lengths_unlockedGrow h
  exact ⟨h1 ▸ Nat.le_max_left _ _, h2 ▸ Nat.le_max_left _ _⟩

theorem Larger.of_internalEnqueue {n : Nat} (h : q.internalEnqueue n = .ok q') : Larger q q' := by
  unfold internalEnqueue at h
  split_ifs at h with hold
  · revert h
    cases q.oldqueue with
    | none => exact nofun
    | some old =>
      intro h
      obtain ⟨r, hr, h⟩ := bind_eq_ok h
      cases h
      have hshape := ThresholdQueueBase.sameShape_drainInto hr
      exact ⟨Nat.le_of_eq hshape.queueLength.symm, Nat.le_of_eq hshape.maxThreshold.symm⟩
  · cases h
    exact ⟨Nat.le_refl _, Nat.le_refl _⟩

private theorem Larger.of_store {p : Ptr} {off : Nat} {b : Byte} (h : q.store p off b = some q') : Larger q q' := by
  unfold store at h
  split_ifs at h
  · cases h
    exact ⟨Nat.le_refl _, Nat.le_refl _⟩
  · obtain ⟨old, -, h⟩ := Option.map_eq_some_iff.1 h
    cases h
    exact ⟨Nat.le_refl _, Nat.le_refl _⟩

theorem Larger.internalDequeue (q : ThresholdQueue) (n : Nat) : Larger q (q.internalDequeue n) := by
  unfold ThresholdQueue.internalDequeue
  split_ifs <;> exact ⟨Nat.le_refl _, Nat.le_refl _⟩

end ThresholdQueue

namespace Pass

variable {σ τ : Type}

/-- The queue after the pass has the property. -/
def All (P : σ → Prop) : Pass σ → Prop
  | returns _ q => P q
  | broken q => P q
  | again q => P q
  | growing q _ _ => P q
  | waits q => P q
  | fails _ => True

theorem All.map {P : τ → Prop} {f : σ → τ} {p : Pass σ} (h : p.All fun q => P (f q)) : (p.map f).All P := by
  cases p <;> exact h

end Pass

namespace LocalState

open ThresholdQueue (Larger)

variable {k : KernelBase} {s s' t : LocalState} {q q' : ThresholdQueue} {thresh chan : Nat} {grown : Bool}

private theorem larger_notifyFreespace (q : ThresholdQueue) : Larger q (Queue.notifyFreespace q) := by
  unfold Queue.notifyFreespace
  split_ifs <;> exact ⟨Nat.le_refl _, Nat.le_refl _⟩

private theorem larger_notifyData (q : ThresholdQueue) : Larger q (Queue.notifyData q) := by
  unfold Queue.notifyData
  split_ifs <;> exact ⟨Nat.le_refl _, Nat.le_refl _⟩

private theorem larger_growPass (q : ThresholdQueue) (len mt : Nat) : (Queue.growPass k q len mt).All (Larger q) := by
  cases hg : q.unlockedGrow k.malloc len mt with
  | error fault =>
    rw [Queue.growPass, show Queue.unlockedGrow k q len mt = .error fault from congrArg (Except.map GrowResult.done) hg]
    trivial
  | ok q' =>
    rw [Queue.growPass, show Queue.unlockedGrow k q len mt = .ok (.done q') from congrArg (Except.map GrowResult.done) hg]
    have hl := Larger.of_unlockedGrow hg
    exact ⟨hl.1, hl.2⟩

private theorem larger_dequeuePass (k : KernelBase) (q : ThresholdQueue) (thresh chan : Nat) :
    (Queue.dequeuePass k q thresh chan).All (Larger q) := by
  unfold Queue.dequeuePass
  cases (Queue.threshold q).internalGetRawDequeuePtr thresh chan with
  | error fault => trivial
  | ok ptr =>
    cases ptr with
    | some ptr => exact ⟨Nat.le_refl _, Nat.le_refl _⟩
    | none =>
      dsimp only
      split_ifs
      · exact .refl q
      · exact .refl q
      · exact larger_growPass q _ _
      · exact larger_growPass q _ _
      · exact ⟨Nat.le_refl _, Nat.le_refl _⟩

private theorem larger_enqueuePass (k : KernelBase) (q : ThresholdQueue) (thresh chan : Nat) (grown : Bool) :
    (Queue.enqueuePass k q thresh chan grown).All fun r => Larger q r.1 := by
  unfold Queue.enqueuePass
  cases (Queue.threshold q).internalGetRawEnqueuePtr thresh chan with
  | error fault => trivial
  | ok ptr =>
    cases ptr with
    | some ptr => exact ⟨Nat.le_refl _, Nat.le_refl _⟩
    | none =>
      dsimp only
      split_ifs
      · exact .refl q
      · exact .map (P := fun r : ThresholdQueue × Bool => Larger q r.1) (larger_growPass q _ _)
      · exact .map (P := fun r : ThresholdQueue × Bool => Larger q r.1) (larger_growPass q _ _)
      · exact ⟨Nat.le_refl _, Nat.le_refl _⟩

/-- No step lowers the length or the threshold of the queue. -/
theorem larger_of_step {l : LocalAct} (h : Step k s l s') : Larger s.q s'.q := by
  cases h with
  | getRawDequeuePtr =>
    unfold LocalState.getRawDequeuePtr
    split_ifs <;> exact ⟨Nat.le_refl _, Nat.le_refl _⟩
  | @dequeuePass t c =>
    -- a pass keeps the ring, or grows it
    have h := larger_dequeuePass k s.q t c
    unfold LocalState.dequeuePass
    split <;> rename_i heq <;> rw [heq] at h
    · exact h
    · exact h
    · exact h
    · exact h
    · exact h
    · split_ifs <;> exact ⟨h.1, h.2⟩
    · exact .refl _
  | readerWakes =>
    unfold LocalState.readerWakes
    split_ifs <;> exact ⟨Nat.le_refl _, Nat.le_refl _⟩
  | @dequeue n =>
    unfold LocalState.dequeue
    dsimp only
    split_ifs
    · exact ⟨Nat.le_refl _, Nat.le_refl _⟩
    · refine Larger.trans ?_ (larger_notifyFreespace _)
      have h := Larger.internalDequeue { s.q with dequeuethresh := 0, indequeue := false } n
      exact ⟨h.1, h.2⟩
  | getRawEnqueuePtr =>
    unfold LocalState.getRawEnqueuePtr
    split_ifs <;> exact ⟨Nat.le_refl _, Nat.le_refl _⟩
  | @enqueuePass t c grown =>
    have h := larger_enqueuePass k s.q t c grown
    unfold LocalState.enqueuePass
    split <;> rename_i heq <;> rw [heq] at h
    · exact h
    · exact h
    · exact h
    · exact h
    · exact h
    · split_ifs <;> exact ⟨h.1, h.2⟩
    · exact .refl _
  | writerWakes =>
    unfold LocalState.writerWakes
    split_ifs <;> exact ⟨Nat.le_refl _, Nat.le_refl _⟩
  | @write p off b =>
    unfold LocalState.write
    split
    · exact .refl _
    · exact .of_store ‹_›
  | @enqueue n =>
    unfold LocalState.enqueue
    dsimp only
    split_ifs
    · exact ⟨Nat.le_refl _, Nat.le_refl _⟩
    · split
      · exact ⟨Nat.le_refl _, Nat.le_refl _⟩
      · rename_i q hq
        have h := Larger.of_internalEnqueue hq
        exact Larger.trans ⟨h.1, h.2⟩ (larger_notifyData q)
  | @grow len mt =>
    unfold LocalState.grow
    split
    · exact .of_unlockedGrow ‹_›
    · split_ifs <;> exact .refl _
  | detect =>
    unfold LocalState.detect
    split
    · rename_i q hq
      have h := Larger.of_unlockedGrow hq
      exact ⟨h.1, h.2⟩
    · exact .refl _
  | _ => exact ⟨Nat.le_refl _, Nat.le_refl _⟩

end LocalState

end ProcessNetwork
