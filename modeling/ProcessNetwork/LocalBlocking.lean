import ProcessNetwork.LocalFifo

/-!
# Blocking and waking on a local queue

A sleeping thread is blocked as long as every step that can unblock it broadcasts.  All of them do except the public
`Grow`, so no wakeup is lost along runs in which `Grow` never makes room for a sleeping writer, and a `Grow` that does
make room loses the wakeup (`no_lost_wakeup_iff`).

With growth enabled the two threads never block each other: whichever of them comes second grows the queue for both
requests, or finds the other one unblocked (`never_both_blocked`).
-/

namespace ProcessNetwork

namespace LocalState

open ThresholdQueue (GrownTo)
open QueueBase (outEnqueue outDequeue)

variable {k : KernelBase} {s s' : LocalState} {q q' : ThresholdQueue} {t c : Nat} {grown : Bool}

/-! ### Blocked threads -/

theorem readBlocked_of_shutdown (h : q.shutdown = true) : Queue.readBlocked q = false := by
  change (_ && !q.shutdown) = false
  rw [h, Bool.not_true, Bool.and_false]

private theorem writeBlocked_of_shutdown (h : q.shutdown = true) : Queue.writeBlocked q = false := by
  change (_ && !q.shutdown) = false
  rw [h, Bool.not_true, Bool.and_false]

private theorem readBlocked_iff (h : q.shutdown = false) : Queue.readBlocked q = true ↔ q.queue.count < q.readrequest := by
  change (decide (q.queue.count < q.readrequest) && !q.shutdown) = true ↔ _
  rw [h, Bool.not_false, Bool.and_true, decide_eq_true_eq]

private theorem writeBlocked_iff (h : q.shutdown = false) :
    Queue.writeBlocked q = true ↔ q.queue.freespace < q.writerequest := by
  change (decide (q.queue.freespace < q.writerequest) && !q.shutdown) = true ↔ _
  rw [h, Bool.not_false, Bool.and_true, decide_eq_true_eq]

/-! ### After a shutdown nobody sleeps -/

/-- One end is shut down and no thread sleeps. -/
def Awake (q : ThresholdQueue) : Prop := q.shutdown = true ∧ ∀ th, q.cond th = false

private theorem Awake.of_base (h : Awake q) (h1 : q'.readshutdown = q.readshutdown)
    (h2 : q'.writeshutdown = q.writeshutdown) (h3 : ∀ th, q'.cond th = q.cond th ∨ q'.cond th = false) : Awake q' := by
  refine ⟨?_, fun th => ?_⟩
  · rw [QueueBase.shutdown, h1, h2]
    exact h.1
  · rcases h3 th with h3 | h3
    · exact h3.trans (h.2 th)
    · exact h3

private theorem Awake.of_toQueueBase (h : Awake q) (hb : q'.toQueueBase = q.toQueueBase) : Awake q' :=
  h.of_base (by rw [hb]) (by rw [hb]) fun th => .inl (by rw [hb])

private theorem Awake.notifyFreespace (h : Awake q) : Awake (Queue.notifyFreespace q) := by
  unfold Queue.notifyFreespace
  split_ifs
  · exact h.of_base rfl rfl fun _ => .inr rfl
  · exact h

private theorem Awake.notifyData (h : Awake q) : Awake (Queue.notifyData q) := by
  unfold Queue.notifyData
  split_ifs
  · exact h.of_base rfl rfl fun _ => .inr rfl
  · exact h

private theorem Awake.setCond (h : Awake q) (th : Thread) : Awake (setCond q th false) := by
  refine h.of_base rfl rfl fun th' => ?_
  by_cases hth : th' = th
  · exact .inr (by rw [hth]; exact Function.update_self _ _ _)
  · exact .inl (Function.update_of_ne hth _ _)

/-- After a shutdown a pass of the reader does not wait. -/
private theorem Awake.dequeuePass (h : Awake s.q) : Awake (s.dequeuePass k t c).q := by
  have hsd := h.1
  rw [QueueBase.shutdown, Bool.or_eq_true] at hsd
  unfold LocalState.dequeuePass Queue.dequeuePass
  cases (Queue.threshold s.q).internalGetRawDequeuePtr t c with
  | error fault => exact h
  | ok ptr =>
    cases ptr with
    | some ptr => exact h.of_base rfl rfl fun _ => .inl rfl
    | none =>
      dsimp only
      by_cases hw : (Queue.base s.q).writeshutdown = true
      · rw [if_pos hw]
        exact h
      · have hr : (Queue.base s.q).readshutdown = true := hsd.resolve_right hw
        rw [if_neg hw, if_pos hr]
        exact h

private theorem Awake.enqueuePass (h : Awake s.q) : Awake (s.enqueuePass k t c grown).q := by
  unfold LocalState.enqueuePass Queue.enqueuePass
  cases (Queue.threshold s.q).internalGetRawEnqueuePtr t c with
  | error fault => exact h
  | ok ptr =>
    cases ptr with
    | some ptr => exact h.of_base rfl rfl fun _ => .inl rfl
    | none =>
      dsimp only
      rw [if_pos (show ((Queue.base s.q).readshutdown || (Queue.base s.q).writeshutdown) = true from h.1)]
      exact h

private theorem Awake.next (h : Awake s.q) {l : LocalAct} (hs : Step k s l s') : Awake s'.q := by
  have hsd := h.1
  cases hs with
  | getRawDequeuePtr =>
    unfold LocalState.getRawDequeuePtr
    split_ifs <;> exact h.of_base rfl rfl fun _ => .inl rfl
  | dequeuePass => exact h.dequeuePass
  | readerWakes =>
    unfold LocalState.readerWakes
    -- after a shutdown nobody is blocked, and who wakes up goes on
    rw [if_neg (by simp [readBlocked_of_shutdown hsd])]
    exact h.of_base rfl rfl fun _ => .inl rfl
  | @dequeue n =>
    unfold LocalState.dequeue
    dsimp only
    split_ifs
    · exact h.of_base rfl rfl fun _ => .inl rfl
    · refine Awake.notifyFreespace (Awake.of_toQueueBase ?_ (ThresholdQueue.toQueueBase_internalDequeue _ n))
      exact h.of_base rfl rfl fun _ => .inl rfl
  | getRawEnqueuePtr =>
    unfold LocalState.getRawEnqueuePtr
    split_ifs <;> exact h.of_base rfl rfl fun _ => .inl rfl
  | enqueuePass => exact h.enqueuePass
  | writerWakes =>
    unfold LocalState.writerWakes
    rw [if_neg (by simp [writeBlocked_of_shutdown hsd])]
    exact h.of_base rfl rfl fun _ => .inl rfl
  | @write p off b =>
    unfold LocalState.write
    cases hst : s.q.store p.ptr off b with
    | none => exact h
    | some q' => exact h.of_toQueueBase (ThresholdQueue.toQueueBase_store hst)
  | @enqueue n =>
    unfold LocalState.enqueue
    dsimp only
    split_ifs
    · exact h.of_base rfl rfl fun _ => .inl rfl
    · have hq : Awake { s.q with enqueuethresh := 0, inenqueue := false } := h.of_base rfl rfl fun _ => .inl rfl
      cases hok : ThresholdQueue.internalEnqueue { s.q with enqueuethresh := 0, inenqueue := false } n with
      | error fault => exact hq
      | ok q' => exact (hq.of_toQueueBase (ThresholdQueue.toQueueBase_internalEnqueue hok)).notifyData
  | @grow len mt =>
    unfold LocalState.grow
    cases hok : s.q.unlockedGrow k.malloc len mt with
    | error fault =>
      dsimp only
      split_ifs <;> exact h
    | ok q' => exact h.of_toQueueBase (ThresholdQueue.toQueueBase_unlockedGrow hok)
  | shutdownReader => exact ⟨rfl, fun _ => rfl⟩
  | shutdownWriter => exact ⟨Bool.or_true _, fun _ => rfl⟩
  | detect =>
    unfold LocalState.detect
    cases hok : s.q.unlockedGrow k.malloc (k.calculateGrowSize s.q.queue.count s.q.writerequest) s.q.writerequest with
    | error fault => exact h
    | ok q' => exact (h.of_toQueueBase (ThresholdQueue.toQueueBase_unlockedGrow hok)).setCond _
  | deadlock => exact h.of_base rfl rfl fun _ => .inr rfl
  | spuriousWakeup => exact h.setCond _

/-! ### Before a shutdown every sleeping thread is blocked -/

/-- A sleeping thread waits, and its blocking condition holds. -/
structure NoLostWakeup (s : LocalState) : Prop where
  reader : s.q.cond .reader = true → (∃ t c, s.reader = .waiting t c) ∧ Queue.readBlocked s.q = true
  writer : s.q.cond .writer = true → (∃ t c grown, s.writer = .waiting t c grown) ∧ Queue.writeBlocked s.q = true

/-- A sleeping thread waits, and is short of bytes or of room. -/
structure Sleeps (s : LocalState) : Prop where
  reader : s.q.cond .reader = true → (∃ t c, s.reader = .waiting t c) ∧ s.q.queue.count < s.q.readrequest
  writer : s.q.cond .writer = true →
    (∃ t c grown, s.writer = .waiting t c grown) ∧ s.q.queue.freespace < s.q.writerequest

theorem noLostWakeup_iff (hsd : s.q.shutdown = false) : NoLostWakeup s ↔ Sleeps s := by
  constructor
  · rintro ⟨h1, h2⟩
    rw [readBlocked_iff hsd] at h1
    rw [writeBlocked_iff hsd] at h2
    exact ⟨h1, h2⟩
  · rintro ⟨h1, h2⟩
    rw [← readBlocked_iff hsd] at h1
    rw [← writeBlocked_iff hsd] at h2
    exact ⟨h1, h2⟩

theorem Sleeps.of_woken (h : ∀ th, s.q.cond th = false) : Sleeps s where
  reader hc := by rw [h] at hc; cases hc
  writer hc := by rw [h] at hc; cases hc

theorem NoLostWakeup.of_awake (h : Awake s.q) : NoLostWakeup s where
  reader hc := by rw [h.2] at hc; cases hc
  writer hc := by rw [h.2] at hc; cases hc

/-- A reader that does not wait does not sleep. -/
private theorem Sleeps.reader_awake (h : Sleeps s) (hr : ∀ t c, s.reader ≠ .waiting t c) : s.q.cond .reader = false := by
  cases hc : s.q.cond .reader with
  | false => rfl
  | true =>
    obtain ⟨⟨t, c, hw⟩, -⟩ := h.reader hc
    exact absurd hw (hr t c)

private theorem Sleeps.writer_awake (h : Sleeps s) (hw : ∀ t c g, s.writer ≠ .waiting t c g) :
    s.q.cond .writer = false := by
  cases hc : s.q.cond .writer with
  | false => rfl
  | true =>
    obtain ⟨⟨t, c, g, hw'⟩, -⟩ := h.writer hc
    exact absurd hw' (hw t c g)

/-- A step of an awake reader that does not wake the writer must not make room. -/
private theorem Sleeps.of_reader (h : Sleeps s) (hr : s'.q.cond .reader = false)
    (hw : s'.q.cond .writer = true → s.q.cond .writer = true ∧ s'.writer = s.writer ∧
      s'.q.writerequest = s.q.writerequest ∧ s'.q.queue.freespace < s'.q.writerequest) : Sleeps s' where
  reader hc := by rw [hr] at hc; cases hc
  writer hc := by
    obtain ⟨h1, h2, h3, h4⟩ := hw hc
    exact ⟨h2 ▸ (h.writer h1).1, h4⟩

private theorem Sleeps.of_writer (h : Sleeps s) (hw : s'.q.cond .writer = false)
    (hr : s'.q.cond .reader = true → s.q.cond .reader = true ∧ s'.reader = s.reader ∧
      s'.q.readrequest = s.q.readrequest ∧ s'.q.queue.count < s'.q.readrequest) : Sleeps s' where
  reader hc := by
    obtain ⟨h1, h2, h3, h4⟩ := hr hc
    exact ⟨h2 ▸ (h.reader h1).1, h4⟩
  writer hc := by rw [hw] at hc; cases hc

private theorem Sleeps.dequeueStep (h : Sleeps s) (hr : s.reader = .loop t c)
    (hs : DequeueStep k s t c s') : Sleeps s' := by
  have hawake := h.reader_awake fun t c => by simp [hr]
  cases hs with
  | pointer => exact h.of_reader hawake fun hc => ⟨hc, rfl, rfl, (h.writer hc).2⟩
  | ends => exact h.of_reader hawake fun hc => ⟨hc, rfl, rfl, (h.writer hc).2⟩
  | grows => exact .of_woken fun _ => rfl
  | blocks hin hsd hk hcount => exact ⟨fun _ => ⟨⟨t, c, rfl⟩, hcount⟩, h.writer⟩
  | goesOn => exact h.of_reader hawake fun hc => ⟨hc, rfl, rfl, (h.writer hc).2⟩

private theorem Sleeps.enqueueStep (h : Sleeps s) (hw : s.writer = .loop t c grown)
    (hs : EnqueueStep k s t c grown s') : Sleeps s' := by
  have hawake := h.writer_awake fun t c g => by simp [hw]
  cases hs with
  | pointer => exact h.of_writer hawake fun hc => ⟨hc, rfl, rfl, (h.reader hc).2⟩
  | ends => exact h.of_writer hawake fun hc => ⟨hc, rfl, rfl, (h.reader hc).2⟩
  | raises => exact .of_woken fun _ => rfl
  | grows => exact .of_woken fun _ => rfl
  | blocks hin hsd hk hfree => exact ⟨h.reader, fun _ => ⟨⟨t, c, grown, rfl⟩, hfree⟩⟩
  | goesOn => exact h.of_writer hawake fun hc => ⟨hc, rfl, rfl, (h.reader hc).2⟩

/-- `Dequeue` broadcasts when it makes room for the writer. -/
private theorem Sleeps.dequeue (h : Sleeps s) (hr : s.reader = .idle) (n : Nat) : Sleeps (s.dequeue n) := by
  have hawake := h.reader_awake fun t c => by simp [hr]
  unfold LocalState.dequeue
  dsimp only
  split_ifs
  · exact h.of_reader hawake fun hc => ⟨hc, rfl, rfl, (h.writer hc).2⟩
  · have hb := ThresholdQueue.toQueueBase_internalDequeue { s.q with dequeuethresh := 0, indequeue := false } n
    generalize ThresholdQueue.internalDequeue _ n = q' at *
    unfold Queue.notifyFreespace
    split_ifs with hfree
    · exact .of_woken fun _ => rfl
    · refine h.of_reader ?_ fun hc => ⟨?_, rfl, ?_, Nat.not_le.1 hfree⟩
      · show q'.cond .reader = false
        rw [hb]
        exact hawake
      · change q'.cond .writer = true at hc
        rw [hb] at hc
        exact hc
      · show q'.writerequest = _
        rw [hb]

/-- `Enqueue` broadcasts when it brings enough bytes for the reader. -/
private theorem Sleeps.enqueue (h : Sleeps s) (hw : s.writer = .idle) (n : Nat) : Sleeps (s.enqueue n) := by
  have hawake := h.writer_awake fun t c g => by simp [hw]
  unfold LocalState.enqueue
  dsimp only
  split_ifs
  · exact h.of_writer hawake fun hc => ⟨hc, rfl, rfl, (h.reader hc).2⟩
  · cases hok : ThresholdQueue.internalEnqueue { s.q with enqueuethresh := 0, inenqueue := false } n with
    | error fault => exact h.of_writer hawake fun hc => ⟨hc, rfl, rfl, (h.reader hc).2⟩
    | ok q' =>
      have hb := ThresholdQueue.toQueueBase_internalEnqueue hok
      dsimp only
      unfold Queue.notifyData
      split_ifs with hcount
      · exact .of_woken fun _ => rfl
      · refine h.of_writer ?_ fun hc => ⟨?_, rfl, ?_, Nat.not_le.1 hcount⟩
        · show q'.cond .writer = false
          rw [hb]
          exact hawake
        · change q'.cond .reader = true at hc
          rw [hb] at hc
          exact hc
        · show q'.readrequest = _
          rw [hb]

private theorem setCond_false {th th' : Thread} (h : (setCond q th false).cond th' = true) : q.cond th' = true := by
  change Function.update q.cond th false th' = true at h
  rw [Function.update_apply] at h
  split_ifs at h
  exact h

/-- Growing a queue with a sleeping writer keeps the writer blocked unless it makes room. -/
private theorem sleeps_grown_iff (h : Sleeps s) (hsound : Sound s) {len mt : Nat}
    (hg : GrownTo s.q s.q.outEnqueue s.q.outDequeue len mt q') :
    Sleeps { s with q := q' } ↔ ¬(s.q.cond .writer = true ∧ s.q.queue.count + s.q.writerequest ≤ max len mt) := by
  have hcount := hg.queue.count
  have hlen := hg.queue.queueLength
  have hle := hsound.carries.holds.count_le
  have hfree : q'.queue.freespace = q'.queue.queueLength - s.q.queue.count := by
    rw [ThresholdQueueBase.freespace, hcount]
  have hfree' : s.q.queue.freespace = s.q.queue.queueLength - s.q.queue.count := rfl
  constructor
  · rintro h' ⟨hc, hroom⟩
    have hc' : q'.cond .writer = true := by rw [hg.toQueueBase]; exact hc
    have h1 : q'.queue.freespace < q'.writerequest := (h'.writer hc').2
    rw [hg.toQueueBase] at h1
    omega
  · intro hroom
    constructor
    · intro hc
      change q'.cond .reader = true at hc
      rw [hg.toQueueBase] at hc
      show _ ∧ q'.queue.count < q'.readrequest
      rw [hg.toQueueBase, hcount]
      exact h.reader hc
    · intro hc
      change q'.cond .writer = true at hc
      rw [hg.toQueueBase] at hc
      obtain ⟨hwait, hshort⟩ := h.writer hc
      refine ⟨hwait, ?_⟩
      show q'.queue.freespace < q'.writerequest
      rw [hg.toQueueBase]
      have hless : max len mt < s.q.queue.count + s.q.writerequest := Nat.not_le.1 fun hle => hroom ⟨hc, hle⟩
      omega

/-- A `Grow` does not make room for a sleeping writer. -/
def MakesNoRoom (s : LocalState) : LocalAct → Prop
  | .grow queueLen maxThresh =>
    ¬(s.q.cond .writer = true ∧ s.q.queue.count + s.q.writerequest ≤ max queueLen maxThresh)
  | _ => True

instance (s : LocalState) : (l : LocalAct) → Decidable (MakesNoRoom s l)
  | .grow queueLen maxThresh => inferInstanceAs
    (Decidable ¬(s.q.cond .writer = true ∧ s.q.queue.count + s.q.writerequest ≤ max queueLen maxThresh))
  | .getRawDequeuePtr .. | .dequeuePass | .readerWakes | .dequeue _ | .getRawEnqueuePtr .. | .enqueuePass
  | .writerWakes | .write .. | .enqueue _ | .shutdownReader | .shutdownWriter | .detect | .deadlock
  | .spuriousWakeup _ => isTrue trivial

private theorem Sleeps.next (h : Sleeps s) (hsound : Sound s) {l : LocalAct} (hs : Step k s l s')
    (hl : l ≠ .shutdownReader ∧ l ≠ .shutdownWriter) : Sleeps s' ↔ s.MakesNoRoom l := by
  cases hs with
  | getRawDequeuePtr hf hr =>
    have hawake := h.reader_awake fun t c => by simp [hr]
    refine iff_of_true ?_ trivial
    unfold LocalState.getRawDequeuePtr
    split_ifs <;> exact h.of_reader hawake fun hc => ⟨hc, rfl, rfl, (h.writer hc).2⟩
  | dequeuePass hr =>
    have hat := hsound.reader
    rw [hr] at hat
    exact iff_of_true (h.dequeueStep hr (dequeuePass_step hsound.carries hat.2)) trivial
  | @readerWakes t c hr =>
    refine iff_of_true ?_ trivial
    unfold LocalState.readerWakes
    split_ifs with hb
    · refine ⟨fun _ => ⟨⟨t, c, hr⟩, ?_⟩, fun hc => h.writer hc⟩
      rw [Queue.readBlocked, Bool.and_eq_true, decide_eq_true_eq] at hb
      exact hb.1
    · rename_i hf hcond
      exact h.of_reader hcond fun hc => ⟨hc, rfl, rfl, (h.writer hc).2⟩
  | dequeue hf hr => exact iff_of_true (h.dequeue hr _) trivial
  | getRawEnqueuePtr hf hw =>
    have hawake := h.writer_awake fun t c g => by simp [hw]
    refine iff_of_true ?_ trivial
    unfold LocalState.getRawEnqueuePtr
    split_ifs <;> exact h.of_writer hawake fun hc => ⟨hc, rfl, rfl, (h.reader hc).2⟩
  | enqueuePass hw =>
    have hat := hsound.writer
    rw [hw] at hat
    exact iff_of_true (h.enqueueStep hw (enqueuePass_step hsound.carries hat.2)) trivial
  | @writerWakes t c g hw hf hcond =>
    refine iff_of_true ?_ trivial
    unfold LocalState.writerWakes
    split_ifs with hb
    · refine ⟨fun hc => h.reader hc, fun _ => ⟨⟨t, c, g, hw⟩, ?_⟩⟩
      rw [Queue.writeBlocked, Bool.and_eq_true, decide_eq_true_eq] at hb
      exact hb.1
    · exact h.of_writer hcond fun hc => ⟨hc, rfl, rfl, (h.reader hc).2⟩
  | @write p off b hw hp hoff =>
    have hawake := h.writer_awake fun t c g => by simp [hw]
    obtain ⟨hin, -, hthresh, hptr⟩ := hsound.writerPtrs p hp
    have hcar := hsound.carries
    rw [outEnqueue, if_pos hin] at hcar
    obtain ⟨q', hok, -, hst⟩ := hcar.store (show off < s.q.enqueuethresh by omega) p.chan b
    refine iff_of_true ?_ trivial
    rw [LocalState.write, hptr, hok]
    refine h.of_writer (by show q'.cond .writer = false; rw [hst.toQueueBase]; exact hawake) fun hc => ?_
    change q'.cond .reader = true at hc
    show _ ∧ _ ∧ q'.readrequest = _ ∧ q'.queue.count < q'.readrequest
    rw [hst.toQueueBase] at hc ⊢
    rw [hst.count]
    exact ⟨hc, rfl, rfl, (h.reader hc).2⟩
  | enqueue hf hw => exact iff_of_true (h.enqueue hw _) trivial
  | @grow len mt =>
    rcases hsound.grow_cases (k := k) len mt with ⟨q', hs, -, hg⟩ | ⟨hs, hin, -⟩
    · rw [hs]
      exact sleeps_grown_iff h hsound hg
    · rw [hs]
      refine iff_of_true h fun hroom => ?_
      -- a sleeping writer has no enqueue outstanding
      obtain ⟨⟨t, c, g, hw⟩, -⟩ := h.writer hroom.1
      have hat := hsound.writer
      rw [hw] at hat
      rw [hat.2.1] at hin
      cases hin
  | shutdownReader => exact absurd rfl hl.1
  | shutdownWriter => exact absurd rfl hl.2
  | @detect t c g hw =>
    have hat := hsound.writer
    rw [hw] at hat
    obtain ⟨q', hok, -, hg⟩ := hsound.unlockedGrow (k := k) (.inl hat.2.1)
      (k.calculateGrowSize s.q.queue.count s.q.writerequest) s.q.writerequest
    refine iff_of_true ?_ trivial
    rw [LocalState.detect, hok]
    refine h.of_writer (show Function.update q'.cond .writer false .writer = false from Function.update_self _ _ _)
      fun hc => ?_
    have hc : q'.cond .reader = true := setCond_false hc
    show _ ∧ _ ∧ q'.readrequest = _ ∧ q'.queue.count < q'.readrequest
    rw [hg.toQueueBase] at hc ⊢
    rw [hg.queue.count]
    exact ⟨hc, rfl, rfl, (h.reader hc).2⟩
  | deadlock => exact iff_of_true (.of_woken fun _ => rfl) trivial
  | spuriousWakeup =>
    exact iff_of_true ⟨fun hc => h.reader (setCond_false hc), fun hc => h.writer (setCond_false hc)⟩ trivial

/-- One step from a state before or after a shutdown. -/
theorem noLostWakeup_next (h : Awake s.q ∨ s.q.shutdown = false ∧ Sound s ∧ Sleeps s) {l : LocalAct}
    (hs : Step k s l s') :
    (NoLostWakeup s' ↔ s.MakesNoRoom l) ∧
      (s.MakesNoRoom l → Awake s'.q ∨ s'.q.shutdown = false ∧ Sound s' ∧ Sleeps s') := by
  rcases h with h | ⟨hsd, hsound, hsleeps⟩
  · have hno : s.MakesNoRoom l := by
      cases l <;> try trivial
      rintro ⟨hc, -⟩
      rw [h.2] at hc
      cases hc
    have hnext := h.next hs
    exact ⟨iff_of_true (.of_awake hnext) hno, fun _ => .inl hnext⟩
  · by_cases hl : l ≠ .shutdownReader ∧ l ≠ .shutdownWriter
    · have hext := hsound.extends hs
      rw [QueueBase.shutdown, Bool.or_eq_false_iff] at hsd
      have hsd' : s'.q.shutdown = false := by
        rw [QueueBase.shutdown, hext.readshutdown, hext.writeshutdown, hsd.1, hsd.2]
        simp [hl]
      have hsound' : Sound s' := by
        refine hsound.next ?_ hs
        cases l <;> first | exact hsd.1 | exact hsd.2 | trivial
      have hiff := hsleeps.next hsound hs hl
      exact ⟨(noLostWakeup_iff hsd').trans hiff, fun hno => .inr ⟨hsd', hsound', hiff.2 hno⟩⟩
    · have hawake : Awake s'.q := by
        cases hs with
        | shutdownReader => exact ⟨rfl, fun _ => rfl⟩
        | shutdownWriter => exact ⟨Bool.or_true _, fun _ => rfl⟩
        | _ => exact absurd (by simp) hl
      have hno : s.MakesNoRoom l := by
        cases l <;> first | trivial | exact absurd (by simp) hl
      exact ⟨iff_of_true (.of_awake hawake) hno, fun _ => .inl hawake⟩

/-- The steps of runs without shutdown in which the sum that the writer passes to `UnlockedGrow` does not wrap. -/
def NoWrap (s : LocalState) : LocalAct → Prop
  | .shutdownReader => False
  | .shutdownWriter => False
  | .enqueuePass => s.q.readrequest + s.writer.thresh < 2 ^ 32
  | _ => True

instance (s : LocalState) : (l : LocalAct) → Decidable (NoWrap s l)
  | .shutdownReader | .shutdownWriter => isFalse id
  | .enqueuePass => inferInstanceAs (Decidable (s.q.readrequest + s.writer.thresh < 2 ^ 32))
  | .getRawDequeuePtr .. | .dequeuePass | .readerWakes | .dequeue _ | .getRawEnqueuePtr .. | .writerWakes | .write ..
  | .enqueue _ | .grow .. | .detect | .deadlock | .spuriousWakeup _ => isTrue trivial

private theorem NoWrap.noShutdown {l : LocalAct} (h : s.NoWrap l) : s.NoShutdown l := by
  cases l <;> first | exact h | trivial

/-- At most one thread has the lock, a writer that has grown the queue gets its region in the next pass, so it does not
wait, and of two waiting threads one is served. -/
private structure Serves (s : LocalState) : Prop where
  lock : ∀ t c t' c' g, s.reader = .loop t c → s.writer ≠ .loop t' c' g
  grown : ∀ t c, s.writer = .loop t c true → t ≤ s.q.queue.freespace ∧ t ≤ s.q.queue.maxThreshold
  fresh : ∀ t c g, s.writer = .waiting t c g → g = false
  waiting : ∀ t c t' c' g, s.reader = .waiting t c → s.writer = .waiting t' c' g →
    s.q.readrequest ≤ s.q.queue.count ∨ s.q.writerequest ≤ s.q.queue.freespace

private theorem not_loop_of_lockFree (h : s.lockFree = true) :
    (∀ t c, s.reader ≠ .loop t c) ∧ ∀ t c g, s.writer ≠ .loop t c g := by
  constructor
  · intro t c hr
    simp [lockFree, hr] at h
  · intro t c g hw
    cases hr : s.reader <;> simp [lockFree, hr, hw] at h

/-- A step after which the reader does not wait, while the writer does not have the lock. -/
private theorem Serves.of_reader (h : Serves s) (hw : s'.writer = s.writer) (hlock : ∀ t c g, s.writer ≠ .loop t c g)
    (hr : ∀ t c, s'.reader ≠ .waiting t c) : Serves s' where
  lock t c t' c' g _ := by rw [hw]; exact hlock t' c' g
  grown t c hl := absurd (hw ▸ hl) (hlock t c true)
  fresh t c g hl := h.fresh t c g (hw ▸ hl)
  waiting t c _ _ _ hl := absurd hl (hr t c)

/-- A step after which the writer is outside. -/
private theorem Serves.of_writer (hw : s'.writer = .idle) : Serves s' where
  lock _ _ _ _ _ _ := by rw [hw]; exact nofun
  grown _ _ hl := by rw [hw] at hl; cases hl
  fresh _ _ _ hl := by rw [hw] at hl; cases hl
  waiting _ _ _ _ _ _ hl := by rw [hw] at hl; cases hl

/-- A step after which the writer is in its loop. -/
private theorem Serves.of_loop (hw : s'.writer = .loop t c grown) (hlock : ∀ t c, s'.reader ≠ .loop t c)
    (hg : grown = true → t ≤ s'.q.queue.freespace ∧ t ≤ s'.q.queue.maxThreshold) : Serves s' where
  lock t c _ _ _ hl := absurd hl (hlock t c)
  grown _ _ hl := by
    cases hw.symm.trans hl
    exact hg rfl
  fresh _ _ _ hl := by cases hw.symm.trans hl
  waiting _ _ _ _ _ _ hl := by cases hw.symm.trans hl

/-- A step that changes no request and takes neither bytes nor room. -/
private theorem Serves.of_le (h : Serves s) (hr : s'.reader = s.reader) (hw : s'.writer = s.writer)
    (h1 : s'.q.readrequest = s.q.readrequest) (h2 : s'.q.writerequest = s.q.writerequest)
    (h3 : s.q.queue.count ≤ s'.q.queue.count) (h4 : s.q.queue.freespace ≤ s'.q.queue.freespace)
    (h5 : s.q.queue.maxThreshold ≤ s'.q.queue.maxThreshold) : Serves s' where
  lock := by rw [hr, hw]; exact h.lock
  grown t c hl := by
    have := h.grown t c (hw ▸ hl)
    omega
  fresh := by rw [hw]; exact h.fresh
  waiting t c t' c' g hl hl' := by
    have := h.waiting t c t' c' g (hr ▸ hl) (hw ▸ hl')
    omega

private theorem Serves.dequeueStep (h : Serves s) (hk : k.growQueueMaxThreshold = true) (hr : s.reader = .loop t c)
    (hs : DequeueStep k s t c s') : Serves s' := by
  have hlock : ∀ t c g, s.writer ≠ .loop t c g := fun t' c' g => h.lock t c t' c' g hr
  cases hs with
  | pointer => exact h.of_reader rfl hlock fun _ _ => (by simp)
  | ends => exact h.of_reader rfl hlock fun _ _ => (by simp)
  | grows => exact h.of_reader rfl hlock fun _ _ hl => by cases hr.symm.trans hl
  | blocks hin hsd hg hcount =>
    refine ⟨fun _ _ _ _ _ hl => (by cases hl), h.grown, h.fresh, fun _ _ _ _ _ _ _ => .inr ?_⟩
    have hfree := (hg hk).2
    rw [← Bool.not_eq_true, writeBlocked_iff hsd] at hfree
    exact Nat.not_lt.1 hfree
  | goesOn => exact h.of_reader rfl hlock fun _ _ hl => by cases hr.symm.trans hl

private theorem Serves.enqueueStep (h : Serves s) (hk : k.growQueueMaxThreshold = true)
    (hwrap : s.q.readrequest + t < 2 ^ 32) (hw : s.writer = .loop t c grown)
    (hs : EnqueueStep k s t c grown s') : Serves s' := by
  have hlock : ∀ t c, s.reader ≠ .loop t c := fun t' c' hr => h.lock t' c' t c grown hr hw
  have hgrown (hg : grown = true) : t ≤ s.q.queue.freespace ∧ t ≤ s.q.queue.maxThreshold :=
    h.grown t c (hg ▸ hw)
  cases hs with
  | pointer => exact .of_writer rfl
  | ends => exact .of_writer rfl
  | raises len hin hsd hm hcar hg =>
    exact .of_loop rfl hlock fun hgr => absurd (hgrown hgr).2 (Nat.not_le.2 hm)
  | @grows q' hin hsd hm hb hcar hg =>
    refine .of_loop rfl hlock fun _ => ?_
    -- the growth is long enough for both requests, and fewer than `readrequest` bytes are there
    have hlen := hg.queue.queueLength
    have hmax := hg.queue.maxThreshold
    have hfree : q'.queue.freespace = q'.queue.queueLength - s.q.queue.count := by
      rw [ThresholdQueueBase.freespace, hg.queue.count]
    rw [u32_of_lt hwrap] at hlen
    show t ≤ q'.queue.freespace ∧ t ≤ q'.queue.maxThreshold
    omega
  | blocks hin hsd hg hfree =>
    have hnot : grown = false := by
      cases hgr : grown with
      | false => rfl
      | true => exact absurd (hgrown hgr).1 (Nat.not_le.2 hfree)
    refine ⟨fun _ _ _ _ _ _ => (by simp), fun _ _ hl => (by cases hl), fun _ _ _ hl => ?_, fun _ _ _ _ _ _ _ => .inl ?_⟩
    · cases hl
      exact hnot
    · have hread := (hg hk).2.resolve_left (by simp [hnot])
      rw [← Bool.not_eq_true, readBlocked_iff hsd] at hread
      exact Nat.not_lt.1 hread
  | goesOn hin hsd hk' =>
    rw [hk] at hk'
    cases hk'

private theorem Serves.next (h : Serves s) (hsound : Sound s) (hk : k.growQueueMaxThreshold = true) {l : LocalAct}
    (hok : s.NoWrap l) (hs : Step k s l s') : Serves s' := by
  cases hs with
  | getRawDequeuePtr hf hr =>
    unfold LocalState.getRawDequeuePtr
    have hlock := (not_loop_of_lockFree hf).2
    split_ifs
    · exact h.of_reader rfl hlock fun _ _ => (by simp)
    · exact h
    · exact h.of_reader rfl hlock fun _ _ => (by simp)
  | dequeuePass hr =>
    have hat := hsound.reader
    rw [hr] at hat
    exact h.dequeueStep hk hr (dequeuePass_step hsound.carries hat.2)
  | readerWakes hr hf =>
    unfold LocalState.readerWakes
    split_ifs
    · exact h.of_le rfl rfl rfl rfl (Nat.le_refl _) (Nat.le_refl _) (Nat.le_refl _)
    · exact h.of_reader rfl (not_loop_of_lockFree hf).2 fun _ _ => (by simp)
  | dequeue hf hr =>
    have hlock := (not_loop_of_lockFree hf).2
    unfold LocalState.dequeue
    dsimp only
    split_ifs <;> exact h.of_reader rfl hlock fun _ _ hl => by cases hr.symm.trans hl
  | getRawEnqueuePtr hf hw =>
    have hlock := (not_loop_of_lockFree hf).1
    unfold LocalState.getRawEnqueuePtr
    split_ifs
    · exact .of_loop rfl hlock (by simp)
    · exact h
    · exact .of_loop rfl hlock (by simp)
  | enqueuePass hw =>
    have hat := hsound.writer
    rw [hw] at hat
    rw [NoWrap, hw] at hok
    exact h.enqueueStep hk hok hw (enqueuePass_step hsound.carries hat.2)
  | @writerWakes t c g hw hf =>
    have hlock := (not_loop_of_lockFree hf).1
    unfold LocalState.writerWakes
    split_ifs
    · exact h.of_le rfl rfl rfl rfl (Nat.le_refl _) (Nat.le_refl _) (Nat.le_refl _)
    -- a writer that sleeps has not grown the queue in this call
    · exact .of_loop rfl hlock fun hg => absurd (hg.symm.trans (h.fresh t c g hw)) (by decide)
  | @write p off b hw =>
    unfold LocalState.write
    cases s.q.store p.ptr off b with
    | none => exact .of_writer hw
    | some q' => exact .of_writer hw
  | @enqueue n hf hw =>
    unfold LocalState.enqueue
    dsimp only
    split_ifs
    · exact .of_writer hw
    · cases ThresholdQueue.internalEnqueue { s.q with enqueuethresh := 0, inenqueue := false } n with
      | error fault => exact .of_writer hw
      | ok q' => exact .of_writer hw
  | @grow len mt =>
    rcases hsound.grow_cases (k := k) len mt with ⟨q', hs, -, hg⟩ | ⟨hs, -⟩
    · rw [hs]
      exact h.of_le rfl rfl (by rw [hg.toQueueBase]) (by rw [hg.toQueueBase]) (Nat.le_of_eq hg.queue.count.symm)
        hg.queue.freespace_le (hg.queue.maxThreshold ▸ Nat.le_max_left _ _)
    · rw [hs]
      exact h
  -- a shutdown is not among the steps considered here
  | shutdownReader => exact absurd hok id
  | shutdownWriter => exact absurd hok id
  | detect hw =>
    have hat := hsound.writer
    rw [hw] at hat
    obtain ⟨q', hok, -, hg⟩ := hsound.unlockedGrow (k := k) (.inl hat.2.1)
      (k.calculateGrowSize s.q.queue.count s.q.writerequest) s.q.writerequest
    rw [LocalState.detect, hok]
    refine h.of_le rfl rfl ?_ ?_ (Nat.le_of_eq hg.queue.count.symm) hg.queue.freespace_le
      (hg.queue.maxThreshold ▸ Nat.le_max_left _ _)
    · show q'.readrequest = _
      rw [hg.toQueueBase]
    · show q'.writerequest = _
      rw [hg.toQueueBase]
  | deadlock hr hf => exact h.of_reader rfl (not_loop_of_lockFree hf).2 fun _ _ => (by simp)
  | spuriousWakeup => exact h.of_le rfl rfl rfl rfl (Nat.le_refl _) (Nat.le_refl _) (Nat.le_refl _)

/-- A reader and a writer that wait at the same time are not both short of what they asked for. -/
theorem never_both_blocked (k : KernelBase) (hk : k.growQueueMaxThreshold = true) {s : LocalState}
    (h : (localQueue k).ReachableBy NoWrap s) :
    ¬((∃ thresh chan, s.reader = .waiting thresh chan) ∧ s.q.queue.count < s.q.readrequest ∧
      (∃ thresh chan grown, s.writer = .waiting thresh chan grown) ∧ s.q.queue.freespace < s.q.writerequest) := by
  have hserves : Serves s := by
    refine h.invariant_of (J := Sound) (I := Serves) ?_ ?_ ?_
    · intro s hs
      exact (sound_of_noShutdown (hs.mono fun _ _ => NoWrap.noShutdown)).2
    · rintro s ⟨length, maxThreshold, numChannels, rfl⟩
      exact .of_writer rfl
    · intro s l t hsound hs hok hn
      exact hs.next hsound hk hok (step_of_localNext hn)
  rintro ⟨⟨t, c, hr⟩, hcount, ⟨t', c', g, hw⟩, hfree⟩
  have := hserves.waiting t c t' c' g hr hw
  omega

/-- A reader waits for three bytes of a full queue with threshold 2; a writer then comes and is not blocked. -/
theorem never_both_blocked_full : ∃ s, (localQueue (.standard false)).ReachableBy NoWrap s ∧
    s.reader = .waiting 3 0 ∧ s.writer = .loop 2 0 true ∧
    ¬((∃ thresh chan, s.reader = .waiting thresh chan) ∧ s.q.queue.count < s.q.readrequest ∧
      (∃ thresh chan grown, s.writer = .waiting thresh chan grown) ∧ s.q.queue.freespace < s.q.writerequest) := by
  have hrun : (((localQueue (.standard false)).runBy NoWrap (localStart (.standard false) 3 3 1)
      [.getRawEnqueuePtr 2 0, .enqueuePass, .enqueue 2, .getRawDequeuePtr 3 0, .dequeuePass, .getRawEnqueuePtr 2 0,
        .enqueuePass]).any
      fun s => s.reader = .waiting 3 0 ∧ s.writer = .loop 2 0 true) = true := by
    decide +kernel
  obtain ⟨s, hs, hp⟩ := Machine.exists_reachableBy (M := localQueue (.standard false)) ⟨3, 3, 1, rfl⟩ hrun
  have hp := of_decide_eq_true hp
  exact ⟨s, hs, hp.1, hp.2, never_both_blocked _ rfl hs⟩

end LocalState

end ProcessNetwork
