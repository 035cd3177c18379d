import ProcessNetwork.LocalSound

/-!
# Assertions and shutdown

`Enqueue` of a writer that has shut down clears `inenqueue` and throws before `InternalEnqueue` lets go of the old ring,
and `Dequeue` of a reader that has shut down does the same with `indequeue`.  While the operation does not use the old
ring, that does no harm, and the invariant `Sound` holds on.  When it does, `enqueueUseOld` (`dequeueUseOld`) stays set
with the flag of the operation down, and the next `GetRawEnqueuePtr` (`GetRawDequeuePtr`) fails the assertion
(`no_assertion_fails`).
-/

namespace ProcessNetwork

open ThresholdQueue (Carries)
open QueueBase (outEnqueue outDequeue)

namespace LocalState

variable {k : KernelBase} {s s' : LocalState} {l : LocalAct} {n t c : Nat} {grown : Bool}

/-- An operation whose end has been shut down does not use the old ring when it is given up. -/
def KeepsOld (s : LocalState) : LocalAct → Prop
  | .enqueue _ => s.q.writeshutdown = true → s.q.enqueueUseOld = false
  | .dequeue _ => s.q.readshutdown = true → s.q.dequeueUseOld = false
  | _ => True

instance : DecidableRel KeepsOld
  | s, .enqueue _ => inferInstanceAs (Decidable (s.q.writeshutdown = true → s.q.enqueueUseOld = false))
  | s, .dequeue _ => inferInstanceAs (Decidable (s.q.readshutdown = true → s.q.dequeueUseOld = false))
  | _, .getRawDequeuePtr .. | _, .dequeuePass | _, .readerWakes | _, .getRawEnqueuePtr .. | _, .enqueuePass
  | _, .writerWakes | _, .write .. | _, .grow .. | _, .shutdownReader | _, .shutdownWriter | _, .detect | _, .deadlock
  | _, .spuriousWakeup _ => isTrue trivial

/-! ### Operations that throw -/

/-- An `Enqueue` that throws ends the enqueue and leaves the contents of the queue as they are. -/
theorem Sound.enqueue_throws (h : Sound s) (hw : s.writer = .idle) (hsd : s.q.writeshutdown = true)
    (hu : s.q.enqueueUseOld = false) : Sound (s.enqueue n) := by
  have hcar := h.carries.abandonEnqueue (b := { s.q.toQueueBase with enqueuethresh := 0, inenqueue := false }) rfl rfl
  rw [show (if s.q.enqueueUseOld = true then some 0 else none) = none by simp [hu]] at hcar
  unfold LocalState.enqueue
  rw [if_pos hsd]
  refine ⟨h.failed, hcar, h.dequeued_le, h.readerPtrs, ?_, ?_, ?_, ?_⟩
  · intro p hp
    cases hp
  · intro c j b hb
    cases hb
  · exact h.reader.congr rfl rfl rfl
  · show WriterAt _ s.writer
    rw [hw]
    trivial

private theorem Sound.dequeue_throws (h : Sound s) (hr : s.reader = .idle) (hsd : s.q.readshutdown = true)
    (hu : s.q.dequeueUseOld = false) : Sound (s.dequeue n) := by
  have hcar := h.carries.abandonDequeue (b := { s.q.toQueueBase with dequeuethresh := 0, indequeue := false }) rfl rfl
  rw [show (if s.q.dequeueUseOld = true then some 0 else none) = none by simp [hu]] at hcar
  unfold LocalState.dequeue
  rw [if_pos hsd]
  refine ⟨h.failed, hcar, h.dequeued_le, ?_, h.writerPtrs, h.written, ?_, ?_⟩
  · intro p hp
    cases hp
  · show ReaderAt _ s.reader
    rw [hr]
    trivial
  · exact h.writer.congr rfl rfl rfl

private theorem Sound.next_of_keepsOld (h : Sound s) (hok : s.KeepsOld l) (hs : Step k s l s') : Sound s' := by
  by_cases hb : s.NotBroken l
  · exact h.next hb hs
  · cases hs with
    | dequeue _ hr _ =>
      have hsd : s.q.readshutdown = true := eq_true_of_ne_false hb
      exact h.dequeue_throws hr hsd (hok hsd)
    | enqueue _ hw _ =>
      have hsd : s.q.writeshutdown = true := eq_true_of_ne_false hb
      exact h.enqueue_throws hw hsd (hok hsd)
    | _ => exact absurd trivial hb

private theorem sound_of_keepsOld (h : (localQueue k).ReachableBy KeepsOld s) : Sound s := by
  refine h.invariant ?_ ?_
  · rintro s ⟨length, maxThreshold, numChannels, rfl⟩
    exact Sound.start k length maxThreshold numChannels
  · intro s l t hs hl hn
    exact hs.next_of_keepsOld hl (step_of_localNext hn)

/-! ### Calls after a shutdown -/

/-- After a shutdown, a pass of the loop of `GetRawDequeuePtr` ends the call. -/
theorem Sound.dequeuePass_shutdown (h : Sound s) (hr : s.reader = .loop t c) (hsd : s.q.shutdown = true) :
    (∃ ptr q, Queue.dequeuePass k s.q t c = .returns ptr q) ∨ ∃ q, Queue.dequeuePass k s.q t c = .broken q := by
  have hat := h.reader
  rw [hr] at hat
  have ho : Queue.DequeueOutcome k s.q t c _ := Queue.dequeuePass_outcome h.carries hat.2
  generalize Queue.dequeuePass k s.q t c = p at ho ⊢
  have hno {P : Prop} (hf : (Queue.base s.q).shutdown = false) : P := absurd (hsd.symm.trans hf) (by decide)
  cases ho with
  | pointer => exact .inl ⟨_, _, rfl⟩
  | null => exact .inl ⟨_, _, rfl⟩
  | broken => exact .inr ⟨_, rfl⟩
  | grows _ _ hf => exact hno hf
  | waits _ hf => exact hno hf

private theorem Sound.enqueuePass_shutdown (h : Sound s) (hw : s.writer = .loop t c grown) (hsd : s.q.shutdown = true) :
    (∃ ptr q, Queue.enqueuePass k s.q t c grown = .returns (some ptr) q) ∨
      ∃ q, Queue.enqueuePass k s.q t c grown = .broken q := by
  have hat := h.writer
  rw [hw] at hat
  have ho : Queue.EnqueueOutcome k s.q t c grown _ := Queue.enqueuePass_outcome h.carries hat.2
  generalize Queue.enqueuePass k s.q t c grown = p at ho ⊢
  have hno {P : Prop} (hf : (Queue.base s.q).shutdown = false) : P := absurd (hsd.symm.trans hf) (by decide)
  cases ho with
  | pointer => exact .inl ⟨_, _, rfl⟩
  | broken => exact .inr ⟨_, rfl⟩
  | raises _ hf => exact hno hf
  | grows _ hf => exact hno hf
  | waits _ hf => exact hno hf

/-! ### The old ring left behind -/

/-- The next `GetRawEnqueuePtr` fails the assertion. -/
theorem getRawEnqueuePtr_stale (hlock : s.lockFree = true) (hw : s.writer = .idle) (hin : s.q.inenqueue = false)
    (hu : s.q.enqueueUseOld = true) (hc : c < s.q.queue.numChannels) :
    ∃ t, (localQueue k).LeadsBy KeepsOld s t ∧ t.failed = some (.assert "inenqueue") := by
  have hcall : (localQueue k).next s (.getRawEnqueuePtr 0 c) = some (s.getRawEnqueuePtr 0 c) := if_pos ⟨hlock, hw, hc⟩
  have heq : s.getRawEnqueuePtr 0 c = { s with
      q := { s.q with enqueuethresh := 0 }, writer := .loop 0 c false } := by
    rw [getRawEnqueuePtr, if_neg (by simp [hin])]
  have hptr : (Queue.threshold ({ s.q with enqueuethresh := 0 } : ThresholdQueue)).internalGetRawEnqueuePtr 0 c =
      .error (.assert "inenqueue") :=
    ThresholdQueue.internalGetRawEnqueuePtr_stale hin hu
  have hpass : (localQueue k).next (s.getRawEnqueuePtr 0 c) .enqueuePass =
      some ((s.getRawEnqueuePtr 0 c).enqueuePass k 0 c false) := by
    rw [heq]
    rfl
  refine ⟨_, .step (.step .refl ?_ hcall) ?_ hpass, ?_⟩
  · trivial
  · trivial
  · rw [heq, enqueuePass, Queue.enqueuePass, hptr]

private theorem getRawDequeuePtr_stale (hlock : s.lockFree = true) (hr : s.reader = .idle) (hin : s.q.indequeue = false)
    (hu : s.q.dequeueUseOld = true) (hc : c < s.q.queue.numChannels) :
    ∃ t, (localQueue k).LeadsBy KeepsOld s t ∧ t.failed = some (.assert "indequeue") := by
  have hcall : (localQueue k).next s (.getRawDequeuePtr 0 c) = some (s.getRawDequeuePtr 0 c) := if_pos ⟨hlock, hr, hc⟩
  have heq : s.getRawDequeuePtr 0 c = { s with
      q := { s.q with dequeuethresh := 0 }, reader := .loop 0 c } := by
    rw [getRawDequeuePtr, if_neg (by simp [hin])]
  have hptr : (Queue.threshold ({ s.q with dequeuethresh := 0 } : ThresholdQueue)).internalGetRawDequeuePtr 0 c =
      .error (.assert "indequeue") :=
    ThresholdQueue.internalGetRawDequeuePtr_stale hin hu
  have hpass : (localQueue k).next (s.getRawDequeuePtr 0 c) .dequeuePass =
      some ((s.getRawDequeuePtr 0 c).dequeuePass k 0 c) := by
    rw [heq]
    rfl
  refine ⟨_, .step (.step .refl ?_ hcall) ?_ hpass, ?_⟩
  · trivial
  · trivial
  · rw [heq, dequeuePass, Queue.dequeuePass, hptr]

/-- An operation given up while it uses the old ring leads to a failed assertion. -/
theorem exists_failed_of_not_keepsOld (hok : ¬ s.KeepsOld l) (hs : Step k s l s') (hc : 0 < s.q.queue.numChannels) :
    ∃ t, (localQueue k).LeadsBy KeepsOld s' t ∧ t.failed ≠ none := by
  cases hs with
  | @dequeue n hlock hr _ =>
    obtain ⟨hsd, hu⟩ := Classical.not_imp.1 hok
    have heq : s.dequeue n = { s with q := { s.q with dequeuethresh := 0, indequeue := false }, readerPtrs := [] } := by
      rw [dequeue, if_pos hsd]
    rw [heq]
    obtain ⟨t, ht, hf⟩ := getRawDequeuePtr_stale (k := k) (c := 0)
      (s := { s with q := { s.q with dequeuethresh := 0, indequeue := false }, readerPtrs := [] })
      hlock hr rfl (eq_true_of_ne_false hu) hc
    exact ⟨t, ht, by simp [hf]⟩
  | @enqueue n hlock hw _ =>
    obtain ⟨hsd, hu⟩ := Classical.not_imp.1 hok
    have heq : s.enqueue n = { s with
        q := { s.q with enqueuethresh := 0, inenqueue := false }, writerPtrs := [], written := fun _ _ => none } := by
      rw [enqueue, if_pos hsd]
    rw [heq]
    obtain ⟨t, ht, hf⟩ := getRawEnqueuePtr_stale (k := k) (c := 0)
      (s := { s with
        q := { s.q with enqueuethresh := 0, inenqueue := false }, writerPtrs := [], written := fun _ _ => none })
      hlock hw rfl (eq_true_of_ne_false hu) hc
    exact ⟨t, ht, by simp [hf]⟩
  | _ => exact absurd trivial hok

end LocalState

open LocalState

/-- As long as no operation is given up while it uses the old ring, no assertion of the queue fails, and after a
shutdown the calls of the nodes return or throw `BrokenQueueException`.  Giving one up so makes an assertion fail in
the next call. -/
theorem no_assertion_fails (k : KernelBase) {s : LocalState} (h : (localQueue k).ReachableBy KeepsOld s) :
    s.failed = none ∧
    (s.q.shutdown = true →
      (∀ t c, s.reader = .loop t c →
        (∃ ptr q, Queue.dequeuePass k s.q t c = .returns ptr q) ∨ ∃ q, Queue.dequeuePass k s.q t c = .broken q) ∧
      ∀ t c grown, s.writer = .loop t c grown →
        (∃ ptr q, Queue.enqueuePass k s.q t c grown = .returns (some ptr) q) ∨
          ∃ q, Queue.enqueuePass k s.q t c grown = .broken q) ∧
    ∀ l s', localNext k s l = some s' → 0 < s.q.queue.numChannels →
      (s.KeepsOld l ↔ ∀ t, (localQueue k).LeadsBy KeepsOld s' t → t.failed = none) := by
  have hs := sound_of_keepsOld h
  refine ⟨hs.failed, fun hsd => ⟨fun t c hr => hs.dequeuePass_shutdown hr hsd, fun t c grown hw =>
    hs.enqueuePass_shutdown hw hsd⟩, fun l s' hn hc => ⟨fun hok t ht => ?_, fun hall => ?_⟩⟩
  · exact (sound_of_keepsOld ((h.step hok hn).trans ht)).failed
  · by_contra hok
    obtain ⟨t, ht, hf⟩ := exists_failed_of_not_keepsOld hok (step_of_localNext hn) hc
    exact hf (hall t ht)

/-- A queue that grows while an enqueue is outstanding, and is then shut down by its writer. -/
theorem no_assertion_fails_shutdown : ∃ s : LocalState, (localQueue (.standard false)).ReachableBy KeepsOld s ∧
    s.q.enqueueUseOld = true ∧ s.q.shutdown = true ∧ s.failed = none := by
  have hrun : (((localQueue (.standard false)).runBy KeepsOld (localStart (.standard false) 4 2 1)
      [.getRawEnqueuePtr 2 0, .enqueuePass, .grow 100 2, .shutdownWriter, .getRawDequeuePtr 1 0, .dequeuePass]).any
      fun s => decide (s.q.enqueueUseOld = true ∧ s.q.shutdown = true)) = true := by
    decide +kernel
  obtain ⟨s, hs, hp⟩ := Machine.exists_reachableBy (M := localQueue (.standard false)) ⟨4, 2, 1, rfl⟩ hrun
  obtain ⟨h1, h2⟩ := of_decide_eq_true hp
  exact ⟨s, hs, h1, h2, (no_assertion_fails _ hs).1⟩

/-- An assertion can fail through a shutdown: `Enqueue` throws while the enqueue uses the old ring, and the next
`GetRawEnqueuePtr` finds the flags out of step. -/
theorem not_forall_no_assertion_fails :
    ¬ ∀ s : LocalState, (localQueue (.standard false)).Reachable s → s.failed = none := by
  have hrun : (((localQueue (.standard false)).runBy (fun _ _ => True) (localStart (.standard false) 4 2 1)
      [.getRawEnqueuePtr 2 0, .enqueuePass, .grow 100 2, .shutdownWriter, .enqueue 0, .getRawEnqueuePtr 1 0,
        .enqueuePass]).any fun s => decide (s.failed = some (.assert "inenqueue"))) = true := by
    decide +kernel
  obtain ⟨s, hs, hp⟩ := Machine.exists_reachableBy (M := localQueue (.standard false)) ⟨4, 2, 1, rfl⟩ hrun
  intro h
  rw [h s hs] at hp
  cases hp

end ProcessNetwork
