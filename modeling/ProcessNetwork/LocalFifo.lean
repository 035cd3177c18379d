import ProcessNetwork.LocalSound

/-!
# A local queue is a queue

Along every run without shutdown, a local queue with all its buffers is one unbounded queue of bytes per channel: the
ring holds what was enqueued and not yet dequeued, a dequeue pointer shows the front of it, and what it shows does not
change until `Dequeue` (`queue_refines_fifo`).

What a read returns is then compared with what the writer has written by the time it shuts down.  A read that comes
after the shutdown of the writer does not raise `maxThreshold`, so it returns null for bytes that are there when its
threshold is larger; in all other cases the result is a function of the written bytes and of the bytes dequeued before
(`read_determined_iff`).
-/

namespace ProcessNetwork

namespace LocalState

open QueueBase (outEnqueue outDequeue)

variable {k : KernelBase} {s s' : LocalState} {t c : Nat}

/-! ### The history of the queue -/

/-- What a step does to the history: only `Dequeue` takes bytes or gives pointers back, and bytes are enqueued at the
end, as long as the writer has not shut down.  Only the two shutdown calls change the shutdown flags. -/
structure Extends (s : LocalState) (l : LocalAct) (s' : LocalState) : Prop where
  enqueued : ∀ c, ∃ bytes, s'.enqueued c = s.enqueued c ++ bytes
  final : s.q.writeshutdown = true → s'.enqueued = s.enqueued
  dequeued : (∀ n, l ≠ .dequeue n) → s'.dequeued = s.dequeued ∧ ∀ p ∈ s.readerPtrs, p ∈ s'.readerPtrs
  readshutdown : s'.q.readshutdown = (s.q.readshutdown || decide (l = .shutdownReader))
  writeshutdown : s'.q.writeshutdown = (s.q.writeshutdown || decide (l = .shutdownWriter))

private theorem Extends.of_eq {l : LocalAct} (hl : l ≠ .shutdownReader ∧ l ≠ .shutdownWriter)
    (h1 : s'.enqueued = s.enqueued) (h2 : s'.dequeued = s.dequeued) (h3 : ∀ p ∈ s.readerPtrs, p ∈ s'.readerPtrs)
    (h4 : s'.q.readshutdown = s.q.readshutdown) (h5 : s'.q.writeshutdown = s.q.writeshutdown) : Extends s l s' where
  enqueued c := ⟨[], by rw [h1, List.append_nil]⟩
  final _ := h1
  dequeued _ := ⟨h2, h3⟩
  readshutdown := by simp [h4, hl.1]
  writeshutdown := by simp [h5, hl.2]

private theorem DequeueStep.extends (h : DequeueStep k s t c s') : Extends s .dequeuePass s' := by
  have hl : LocalAct.dequeuePass ≠ .shutdownReader ∧ LocalAct.dequeuePass ≠ .shutdownWriter := ⟨nofun, nofun⟩
  cases h with
  | pointer => exact .of_eq hl rfl rfl (fun p hp => List.mem_cons_of_mem _ hp) rfl rfl
  | ends => exact .of_eq hl rfl rfl (fun _ => id) rfl rfl
  | grows len hin hsd hcar hg =>
    exact .of_eq hl rfl rfl (fun _ => id) hg.readshutdown hg.writeshutdown
  | blocks => exact .of_eq hl rfl rfl (fun _ => id) rfl rfl
  | goesOn => exact .of_eq hl rfl rfl (fun _ => id) rfl rfl

private theorem EnqueueStep.extends {grown : Bool} (h : EnqueueStep k s t c grown s') : Extends s .enqueuePass s' := by
  have hl : LocalAct.enqueuePass ≠ .shutdownReader ∧ LocalAct.enqueuePass ≠ .shutdownWriter := ⟨nofun, nofun⟩
  cases h with
  | pointer => exact .of_eq hl rfl rfl (fun _ => id) rfl rfl
  | ends => exact .of_eq hl rfl rfl (fun _ => id) rfl rfl
  | raises len hin hsd hm hcar hg =>
    exact .of_eq hl rfl rfl (fun _ => id) hg.readshutdown hg.writeshutdown
  | grows hin hsd hm hb hcar hg =>
    exact .of_eq hl rfl rfl (fun _ => id) hg.readshutdown hg.writeshutdown
  | blocks => exact .of_eq hl rfl rfl (fun _ => id) rfl rfl
  | goesOn => exact .of_eq hl rfl rfl (fun _ => id) rfl rfl

private theorem extends_dequeue (s : LocalState) (n : Nat) : Extends s (.dequeue n) (s.dequeue n) := by
  have heq : (s.dequeue n).enqueued = s.enqueued := by
    unfold dequeue
    dsimp only
    split_ifs <;> rfl
  have hflags : (s.dequeue n).q.readshutdown = s.q.readshutdown ∧ (s.dequeue n).q.writeshutdown = s.q.writeshutdown := by
    unfold dequeue
    dsimp only
    split_ifs
    · exact ⟨rfl, rfl⟩
    · obtain ⟨cond, hnotify⟩ := Queue.notifyFreespace_eq
        (({ s.q with dequeuethresh := 0, indequeue := false } : ThresholdQueue).internalDequeue n)
      rw [hnotify]
      unfold ThresholdQueue.internalDequeue
      split_ifs <;> exact ⟨rfl, rfl⟩
  refine ⟨fun c => ⟨[], by rw [heq, List.append_nil]⟩, fun _ => heq, fun hl => absurd rfl (hl n), ?_, ?_⟩
  · simp [hflags.1]
  · simp [hflags.2]

private theorem Sound.extends_enqueue (h : Sound s) {n : Nat}
    (hn : n ≤ if s.q.inenqueue then s.q.enqueuethresh else 0) : Extends s (.enqueue n) (s.enqueue n) := by
  unfold LocalState.enqueue
  dsimp only
  split_ifs with hsd
  · exact .of_eq (by simp) rfl rfl (fun _ => id) rfl rfl
  · obtain ⟨q', hok, hbase, -⟩ := h.carries.internalEnqueue (enqueue_le_getD hn)
      (b := { s.q.toQueueBase with enqueuethresh := 0, inenqueue := false }) rfl rfl
    dsimp only at hok
    rw [hok]
    obtain ⟨cond, hnotify⟩ := Queue.notifyData_eq q'
    refine ⟨fun c => ⟨_, rfl⟩, fun h => absurd h hsd, fun _ => ⟨rfl, fun _ => id⟩, ?_, ?_⟩
    · dsimp only
      rw [hnotify]
      simp [hbase]
    · dsimp only
      rw [hnotify]
      simp [hbase]

theorem Sound.extends (h : Sound s) {l : LocalAct} (hs : Step k s l s') : Extends s l s' := by
  cases hs with
  | getRawDequeuePtr =>
    unfold LocalState.getRawDequeuePtr
    split_ifs <;> exact .of_eq (by simp) rfl rfl (fun _ => id) rfl rfl
  | dequeuePass hr =>
    have hat := h.reader
    rw [hr] at hat
    exact (dequeuePass_step h.carries hat.2).extends
  | readerWakes =>
    unfold LocalState.readerWakes
    split_ifs <;> exact .of_eq (by simp) rfl rfl (fun _ => id) rfl rfl
  | dequeue => exact extends_dequeue s _
  | getRawEnqueuePtr =>
    unfold LocalState.getRawEnqueuePtr
    split_ifs <;> exact .of_eq (by simp) rfl rfl (fun _ => id) rfl rfl
  | enqueuePass hw =>
    have hat := h.writer
    rw [hw] at hat
    exact (enqueuePass_step h.carries hat.2).extends
  | writerWakes =>
    unfold LocalState.writerWakes
    split_ifs <;> exact .of_eq (by simp) rfl rfl (fun _ => id) rfl rfl
  | @write p off b _ hp hoff =>
    obtain ⟨hin, -, hthresh, hptr⟩ := h.writerPtrs p hp
    have hcar := h.carries
    -- a held pointer is into the region that is open
    rw [outEnqueue, if_pos hin] at hcar
    obtain ⟨q', hok, -, hst⟩ := hcar.store (show off < s.q.enqueuethresh by omega) p.chan b
    rw [LocalState.write, hptr, hok]
    exact .of_eq (by simp) rfl rfl (fun _ => id) (congrArg QueueBase.readshutdown hst.toQueueBase)
      (congrArg QueueBase.writeshutdown hst.toQueueBase)
  | enqueue _ _ hn => exact h.extends_enqueue hn
  | @grow len mt _ =>
    rcases h.grow_cases (k := k) len mt with ⟨q', hs, -, hg⟩ | ⟨hs, -⟩
    · rw [hs]
      exact .of_eq (by simp) rfl rfl (fun _ => id) hg.readshutdown hg.writeshutdown
    · rw [hs]
      exact .of_eq (by simp) rfl rfl (fun _ => id) rfl rfl
  | shutdownReader =>
    exact ⟨fun c => ⟨[], by rw [List.append_nil]⟩, fun _ => rfl, fun _ => ⟨rfl, fun _ => id⟩, (Bool.or_true _).symm,
      (Bool.or_false _).symm⟩
  | shutdownWriter =>
    exact ⟨fun c => ⟨[], by rw [List.append_nil]⟩, fun _ => rfl, fun _ => ⟨rfl, fun _ => id⟩, (Bool.or_false _).symm,
      (Bool.or_true _).symm⟩
  | detect hw =>
    have hat := h.writer
    rw [hw] at hat
    obtain ⟨q', hok, -, hg⟩ := h.unlockedGrow (k := k) (.inl hat.2.1)
      (k.calculateGrowSize s.q.queue.count s.q.writerequest) s.q.writerequest
    rw [LocalState.detect, hok]
    exact .of_eq (by simp) rfl rfl (fun _ => id) hg.readshutdown hg.writeshutdown
  | deadlock => exact .of_eq (by simp) rfl rfl (fun _ => id) rfl rfl
  | spuriousWakeup => exact .of_eq (by simp) rfl rfl (fun _ => id) rfl rfl

/-- What a held dequeue pointer is for is there. -/
theorem Sound.thresh_le_pending (h : Sound s) {p : HeldPtr} (hp : p ∈ s.readerPtrs) :
    p.thresh ≤ (s.pending p.chan).length := by
  obtain ⟨hin, hchan, hthresh, -⟩ := h.readerPtrs p hp
  have hcar := h.carries
  rw [outDequeue, if_pos hin] at hcar
  have hle := hcar.dequeue_le
  rw [Option.getD_some] at hle
  rw [hcar.holds.length_eq _ hchan]
  omega

/-- What a held dequeue pointer shows. -/
theorem Sound.load_readerPtr (h : Sound s) (hfits : s.q.Fits) {p : HeldPtr} (hp : p ∈ s.readerPtrs) :
    s.q.load p.ptr p.thresh = some ((s.pending p.chan).take p.thresh) := by
  obtain ⟨hin, hchan, hthresh, hptr⟩ := h.readerPtrs p hp
  have hcar := h.carries
  rw [outDequeue, if_pos hin] at hcar
  rw [hptr, hcar.load_dequeuePtr hfits hthresh hchan]

private theorem Sound.inBlock_writerPtr (h : Sound s) (hfits : s.q.Fits) {p : HeldPtr} (hp : p ∈ s.writerPtrs) :
    s.q.inBlock p.ptr p.thresh = true := by
  obtain ⟨hin, hchan, hthresh, hptr⟩ := h.writerPtrs p hp
  have hcar := h.carries
  rw [outEnqueue, if_pos hin] at hcar
  rw [hptr, hcar.inBlock_enqueuePtr hfits hthresh hchan]

/-! ### Refinement -/

/-- The steps of runs without shutdown. -/
def NoShutdown (_ : LocalState) : LocalAct → Prop
  | .shutdownReader => False
  | .shutdownWriter => False
  | _ => True

instance (s : LocalState) (l : LocalAct) : Decidable (NoShutdown s l) := by
  cases l <;> first | exact isTrue trivial | exact isFalse id

/-- Without shutdown the flags stay down and no call throws for a broken queue. -/
theorem sound_of_noShutdown (h : (localQueue k).ReachableBy NoShutdown s) : s.q.shutdown = false ∧ Sound s := by
  refine h.invariant (I := fun s => s.q.shutdown = false ∧ Sound s) ?_ ?_
  · rintro s ⟨length, maxThreshold, numChannels, rfl⟩
    exact ⟨rfl, Sound.start k length maxThreshold numChannels⟩
  · rintro s l t ⟨hsd, hs⟩ hl hn
    have hstep := step_of_localNext hn
    have hext := hs.extends hstep
    rw [QueueBase.shutdown, Bool.or_eq_false_iff] at hsd
    constructor
    · rw [QueueBase.shutdown, hext.readshutdown, hext.writeshutdown, hsd.1, hsd.2]
      cases l <;> first | rfl | exact absurd hl id
    · refine hs.next ?_ hstep
      cases l <;> first | exact hsd.1 | exact hsd.2 | trivial

/-- The steps without shutdown that do not end the outstanding dequeue. -/
def UntilDequeue (s : LocalState) (l : LocalAct) : Prop := NoShutdown s l ∧ ∀ n, l ≠ .dequeue n

/-- The queue is one queue of bytes per channel: the ring has what was enqueued and not yet dequeued, the writer may write
where its pointers point to, every dequeue pointer shows the next bytes, and goes on showing them until `Dequeue`. -/
structure RefinesFifo (k : KernelBase) (s : LocalState) : Prop where
  failed : s.failed = none
  contents : ∀ c < s.q.queue.numChannels, s.q.queue.contents c = s.pending c
  room : ∀ p ∈ s.writerPtrs, s.q.inBlock p.ptr p.thresh = true
  load : ∀ p ∈ s.readerPtrs,
    s.q.load p.ptr p.thresh = some ((s.pending p.chan).take p.thresh) ∧ p.thresh ≤ (s.pending p.chan).length
  stable : ∀ u, (localQueue k).LeadsBy UntilDequeue s u → u.q.Fits → ∀ p ∈ s.readerPtrs,
    p ∈ u.readerPtrs ∧ u.q.load p.ptr p.thresh = s.q.load p.ptr p.thresh

/-- Until `Dequeue`, what is pending on a channel is only appended to. -/
private theorem pending_until_dequeue (hs : (localQueue k).ReachableBy NoShutdown s) {u : LocalState}
    (h : (localQueue k).LeadsBy UntilDequeue s u) :
    (localQueue k).ReachableBy NoShutdown u ∧ u.dequeued = s.dequeued ∧ (∀ p ∈ s.readerPtrs, p ∈ u.readerPtrs) ∧
      ∀ c, ∃ bytes, u.enqueued c = s.enqueued c ++ bytes := by
  induction h with
  | refl => exact ⟨hs, rfl, fun _ => id, fun c => ⟨[], by rw [List.append_nil]⟩⟩
  | step _ hok hn ih =>
    obtain ⟨hreach, hdeq, hptrs, henq⟩ := ih
    have hext := (sound_of_noShutdown hreach).2.extends (step_of_localNext hn)
    obtain ⟨hdeq', hptrs'⟩ := hext.dequeued hok.2
    refine ⟨.step hreach hok.1 hn, hdeq'.trans hdeq, fun p hp => hptrs' p (hptrs p hp), fun c => ?_⟩
    obtain ⟨b1, h1⟩ := henq c
    obtain ⟨b2, h2⟩ := hext.enqueued c
    exact ⟨b1 ++ b2, by rw [h2, h1, List.append_assoc]⟩

/-- In every state in which the size of the ring has not wrapped. -/
theorem queue_refines_fifo (k : KernelBase) {s : LocalState} (h : (localQueue k).ReachableBy NoShutdown s)
    (hfits : s.q.Fits) : RefinesFifo k s := by
  obtain ⟨-, hsound⟩ := sound_of_noShutdown h
  refine ⟨hsound.failed, fun c hc => hsound.carries.holds.contents_eq hc, fun p hp => hsound.inBlock_writerPtr hfits hp,
    fun p hp => ⟨hsound.load_readerPtr hfits hp, hsound.thresh_le_pending hp⟩, ?_⟩
  intro u hu hfits' p hp
  obtain ⟨hreach, hdeq, hptrs, henq⟩ := pending_until_dequeue h hu
  have hlen := hsound.thresh_le_pending hp
  refine ⟨hptrs p hp, ?_⟩
  rw [hsound.load_readerPtr hfits hp, (sound_of_noShutdown hreach).2.load_readerPtr hfits' (hptrs p hp)]
  obtain ⟨bytes, hbytes⟩ := henq p.chan
  have hle := hsound.dequeued_le p.chan (hsound.readerPtrs p hp).2.1
  rw [pending, hdeq, hbytes, List.drop_append_of_le_length hle, ← pending, List.take_append_of_le_length hlen]

/-- A pointer got before the queue grew still points into the old buffer, and the theorem applies to it. -/
theorem queue_refines_fifo_across_grow : ∃ s, (localQueue (.standard false)).ReachableBy NoShutdown s ∧
    s.readerPtrs = [⟨0, 2, ⟨0, 0⟩⟩] ∧ s.q.queue.buf = 1 ∧ RefinesFifo (.standard false) s := by
  have hrun : (((localQueue (.standard false)).runBy NoShutdown (localStart (.standard false) 3 2 1)
      [.getRawEnqueuePtr 2 0, .enqueuePass, .write ⟨0, 2, ⟨0, 0⟩⟩ 0 7, .write ⟨0, 2, ⟨0, 0⟩⟩ 1 8, .enqueue 2,
        .getRawDequeuePtr 2 0, .dequeuePass, .grow 10 4]).any
      fun s => s.readerPtrs = [⟨0, 2, ⟨0, 0⟩⟩] ∧ s.q.queue.buf = 1 ∧ s.q.Fits) = true := by
    decide +kernel
  obtain ⟨s, hs, hp⟩ := Machine.exists_reachableBy (M := localQueue (.standard false)) ⟨3, 2, 1, rfl⟩ hrun
  have hp := of_decide_eq_true hp
  exact ⟨s, hs, hp.1, hp.2.1, queue_refines_fifo _ hs hp.2.2⟩

/-- A queue of `2 ^ 31 + 1` channels of `2 ^ 33 - 3` bytes gets a block of `2 ^ 31 - 3` bytes, and channel `1` begins behind
it. -/
theorem not_forall_queue_refines_fifo : ¬ ∀ length maxThreshold numChannels, length < 2 ^ 32 → maxThreshold < 2 ^ 32 →
    numChannels < 2 ^ 32 → ∀ s, (localQueue (.standard false)).LeadsBy NoShutdown
      (localStart (.standard false) length maxThreshold numChannels) s → RefinesFifo (.standard false) s := by
  intro h
  have hrun : (((localQueue (.standard false)).runBy NoShutdown
      (localStart (.standard false) (2 ^ 32 - 1) (2 ^ 32 - 1) (2 ^ 31 + 1))
      [.getRawEnqueuePtr 1 1, .enqueuePass, .write ⟨1, 1, ⟨0, 2 ^ 33 - 3⟩⟩ 0 7, .enqueue 1, .getRawDequeuePtr 1 1,
        .dequeuePass]).any
      fun s => s.readerPtrs = [⟨1, 1, ⟨0, 2 ^ 33 - 3⟩⟩] ∧ (s.q.load ⟨0, 2 ^ 33 - 3⟩ 1).isNone) = true := by
    decide +kernel
  obtain ⟨s, hs, hp⟩ := Machine.exists_leadsBy hrun
  obtain ⟨hptrs, hload⟩ := of_decide_eq_true hp
  have hshown := ((h _ _ _ (by decide) (by decide) (by decide) s hs).load ⟨1, 1, ⟨0, 2 ^ 33 - 3⟩⟩
    (by rw [hptrs]; exact List.mem_singleton_self _)).1
  rw [hshown] at hload
  cases hload

/-! ### The result of a read -/

/-- What a read of `thresh` bytes returns after `dequeued` bytes of the stream have been read: the next bytes, or
nothing when the stream is too short. -/
def readResult (stream : List Byte) (dequeued thresh : Nat) : Option (List Byte) :=
  if thresh ≤ (stream.drop dequeued).length then some ((stream.drop dequeued).take thresh) else none

/-- The steps of runs in which the reader does not shut down and the operations of the writer end with
`ShutdownWriter`. -/
def WriterShutsDown (s : LocalState) : LocalAct → Prop
  | .shutdownReader => False
  | .shutdownWriter => s.writer = .idle
  | .getRawEnqueuePtr .. => s.q.writeshutdown = false
  | .enqueuePass => s.q.writeshutdown = false
  | .writerWakes => s.q.writeshutdown = false
  | .write .. => s.q.writeshutdown = false
  | .enqueue _ => s.q.writeshutdown = false
  | _ => True

instance (s : LocalState) (l : LocalAct) : Decidable (WriterShutsDown s l) := by
  cases l <;> unfold WriterShutsDown <;> infer_instance

private theorem sound_of_writerShutsDown (h : (localQueue k).ReachableBy WriterShutsDown s) :
    s.q.readshutdown = false ∧ Sound s := by
  refine h.invariant (I := fun s => s.q.readshutdown = false ∧ Sound s) ?_ ?_
  · rintro s ⟨length, maxThreshold, numChannels, rfl⟩
    exact ⟨rfl, Sound.start k length maxThreshold numChannels⟩
  · rintro s l t ⟨hsd, hs⟩ hl hn
    have hstep := step_of_localNext hn
    constructor
    · rw [(hs.extends hstep).readshutdown, hsd]
      cases l <;> first | rfl | exact absurd hl id
    · refine hs.next ?_ hstep
      cases l <;> first | exact hsd | exact hl | trivial

/-- The stream goes on where it is, and stays what it is after the shutdown of the writer. -/
private theorem stream_of_leadsBy (hs : (localQueue k).ReachableBy WriterShutsDown s) {u : LocalState}
    (h : (localQueue k).LeadsBy WriterShutsDown s u) :
    (localQueue k).ReachableBy WriterShutsDown u ∧ (∀ c, ∃ bytes, u.enqueued c = s.enqueued c ++ bytes) ∧
      (s.q.writeshutdown = true → u.q.writeshutdown = true ∧ u.enqueued = s.enqueued) := by
  induction h with
  | refl => exact ⟨hs, fun c => ⟨[], by rw [List.append_nil]⟩, fun h => ⟨h, rfl⟩⟩
  | step _ hok hn ih =>
    obtain ⟨hreach, henq, hfin⟩ := ih
    have hext := (sound_of_writerShutsDown hreach).2.extends (step_of_localNext hn)
    refine ⟨.step hreach hok hn, fun c => ?_, fun hw => ?_⟩
    · obtain ⟨b1, h1⟩ := henq c
      obtain ⟨b2, h2⟩ := hext.enqueued c
      exact ⟨b1 ++ b2, by rw [h2, h1, List.append_assoc]⟩
    · obtain ⟨h1, h2⟩ := hfin hw
      exact ⟨by rw [hext.writeshutdown, h1]; rfl, (hext.final h1).trans h2⟩

/-- The result `ptr` of the read in which the reader is in state `s` is determined by the stream: it is the result for
the stream as it is after any continuation of the run, and it is null only when the writer has shut down and too few
bytes are left. -/
def ReadDetermined (k : KernelBase) (s : LocalState) (thresh chan : Nat) (ptr : Option Ptr) : Prop :=
  (∀ u, (localQueue k).LeadsBy WriterShutsDown (s.dequeuePass k thresh chan) u →
    (ptr.bind fun p => (s.dequeuePass k thresh chan).q.load p thresh) =
      readResult (u.enqueued chan) s.dequeued thresh) ∧
  (ptr = none → s.q.writeshutdown = true ∧ s.q.queue.count < thresh)

/-- The read returns the pointer of the queue. -/
private theorem readDetermined_of_pointer (hs : (localQueue k).ReachableBy WriterShutsDown s)
    (hr : s.reader = .loop t c) {ptr : Ptr} {q' : ThresholdQueue}
    (hret : Queue.dequeuePass k s.q t c = .returns (some ptr) q') (hfits : q'.Fits) :
    ReadDetermined k s t c (some ptr) := by
  obtain ⟨-, hsound⟩ := sound_of_writerShutsDown hs
  have hpass : s.dequeuePass k t c =
      { s with q := q', reader := .idle, readerPtrs := ⟨c, t, ptr⟩ :: s.readerPtrs } := by
    rw [dequeuePass, hret]
  have hnext : localNext k s .dequeuePass = some (s.dequeuePass k t c) := by
    simp only [localNext, hr]
  have hreach : (localQueue k).ReachableBy WriterShutsDown (s.dequeuePass k t c) :=
    .step (l := .dequeuePass) hs trivial hnext
  obtain ⟨-, hsound'⟩ := sound_of_writerShutsDown hreach
  refine ⟨fun u hu => ?_, fun h => by cases h⟩
  obtain ⟨-, henq, -⟩ := stream_of_leadsBy hreach hu
  have hmem : ⟨c, t, ptr⟩ ∈ (s.dequeuePass k t c).readerPtrs := by
    rw [hpass]
    exact List.mem_cons_self
  have hload := hsound'.load_readerPtr (by rw [hpass]; exact hfits) hmem
  have hlen := hsound'.thresh_le_pending hmem
  obtain ⟨bytes, hbytes⟩ := henq c
  have hchan := (hsound'.readerPtrs _ hmem).2.1
  have hle := hsound'.dequeued_le c hchan
  have hdeq : (s.dequeuePass k t c).dequeued = s.dequeued := by rw [hpass]
  rw [pending] at hload hlen
  rw [hdeq] at hload hlen hle
  dsimp only at hload hlen
  rw [Option.bind_some, hload, readResult, hbytes, List.drop_append_of_le_length hle, if_pos,
    List.take_append_of_le_length hlen]
  rw [List.length_append]
  omega

/-- As long as the size of the ring has not wrapped, a read that returns is determined by the stream, unless the writer
has shut down, the bytes are there and the threshold is larger than `maxThreshold`. -/
theorem read_determined_iff (k : KernelBase) {s : LocalState} {thresh chan : Nat} {ptr : Option Ptr}
    {q' : ThresholdQueue} (hs : (localQueue k).ReachableBy WriterShutsDown s) (hfits : s.q.Fits)
    (hr : s.reader = .loop thresh chan) (hret : Queue.dequeuePass k s.q thresh chan = .returns ptr q') :
    ReadDetermined k s thresh chan ptr ↔
      ¬(s.q.writeshutdown = true ∧ s.q.queue.maxThreshold < thresh ∧ thresh ≤ s.q.queue.count) := by
  obtain ⟨-, hsound⟩ := sound_of_writerShutsDown hs
  have hat := hsound.reader
  rw [hr] at hat
  have ho := Queue.dequeuePass_outcome (q := s.q) (k := k) (c := chan) hsound.carries hat.2
  revert ho
  generalize hp : Queue.dequeuePass k s.q thresh chan = p
  rw [hret] at hp
  intro ho
  cases ho with
  | broken => cases hp
  | waits => cases hp
  | grows len => exact absurd hp.symm (Queue.growPass_ne_returns s.q len thresh)
  | pointer havail =>
    cases hp
    refine iff_of_true (readDetermined_of_pointer hs hr hret hfits) fun ⟨_, hm, _⟩ => ?_
    -- with a pointer out already, the threshold is at most `maxThreshold`
    rcases havail with hin | havail
    · have hin : s.q.indequeue = true := hin
      have hle := hsound.carries.dequeue_le.2
      have hd := hat.2
      rw [QueueBase.outDequeue, if_pos hin, Option.getD_some] at hle
      rw [QueueBase.Dequeuing, if_pos hin] at hd
      omega
    · exact absurd havail.2 (Nat.not_le.2 hm)
  | null hstarved hw =>
    cases hp
    have hw : s.q.writeshutdown = true := hw
    have hpass : s.dequeuePass k thresh chan = { s with reader := .idle } := by
      rw [dequeuePass, hret]
    have hlen := hsound.carries.holds.length_eq chan hat.1
    rw [pending] at hlen
    constructor
    · rintro ⟨-, hnull⟩ ⟨-, -, hc⟩
      have := (hnull rfl).2
      omega
    · intro hnot
      have hcount : s.q.queue.count < thresh := by
        rcases hstarved.2 with h | h
        · exact h
        · exact Nat.not_le.1 fun hc => hnot ⟨hw, h, hc⟩
      -- after the shutdown the stream does not grow, so that too few bytes are left for good
      refine ⟨fun u hu => ?_, fun _ => ⟨hw, hcount⟩⟩
      have hnext : localNext k s .dequeuePass = some (s.dequeuePass k thresh chan) := by
        simp only [localNext, hr]
      obtain ⟨-, -, hfin⟩ := stream_of_leadsBy (.step (l := .dequeuePass) hs trivial hnext) hu
      rw [hpass] at hfin
      rw [(hfin hw).2, Option.bind_none, readResult, if_neg]
      show ¬thresh ≤ ((s.enqueued chan).drop s.dequeued).length
      omega

/-- The writer puts four bytes into a queue with `maxThreshold` 2 and shuts down; a read of two bytes gets them. -/
theorem read_determined_small : ∃ s q', ∃ ptr : Ptr,
    (localQueue (.standard false)).ReachableBy WriterShutsDown s ∧ s.reader = .loop 2 0 ∧
    Queue.dequeuePass (.standard false) s.q 2 0 = .returns (some ptr) q' ∧
    ReadDetermined (.standard false) s 2 0 (some ptr) := by
  have hrun : (((localQueue (.standard false)).runBy WriterShutsDown (localStart (.standard false) 4 2 1)
      [.getRawEnqueuePtr 2 0, .enqueuePass, .enqueue 2, .getRawEnqueuePtr 2 0, .enqueuePass, .enqueue 2, .shutdownWriter,
        .getRawDequeuePtr 2 0]).any
      fun s => s.reader = .loop 2 0 ∧ (Queue.dequeuePass (.standard false) s.q 2 0).returned = some (some ⟨0, 0⟩) ∧
        s.q.queue.maxThreshold = 2 ∧ s.q.Fits) = true := by
    decide +kernel
  obtain ⟨s, hs, hp⟩ := Machine.exists_reachableBy (M := localQueue (.standard false)) ⟨4, 2, 1, rfl⟩ hrun
  obtain ⟨hr, hret, hm, hfits⟩ := of_decide_eq_true hp
  obtain ⟨q', hret⟩ := Pass.exists_of_returned hret
  exact ⟨s, q', ⟨0, 0⟩, hs, hr, hret, (read_determined_iff _ hs hfits hr hret).2 fun h => by omega⟩

/-- In the same state a read of three bytes returns null, with four bytes in the queue. -/
theorem read_null_with_bytes_left : ∃ s q', (localQueue (.standard false)).ReachableBy WriterShutsDown s ∧
    s.reader = .loop 3 0 ∧ Queue.dequeuePass (.standard false) s.q 3 0 = .returns none q' ∧
    s.q.queue.count = 4 ∧ ¬ReadDetermined (.standard false) s 3 0 none := by
  have hrun : (((localQueue (.standard false)).runBy WriterShutsDown (localStart (.standard false) 4 2 1)
      [.getRawEnqueuePtr 2 0, .enqueuePass, .enqueue 2, .getRawEnqueuePtr 2 0, .enqueuePass, .enqueue 2, .shutdownWriter,
        .getRawDequeuePtr 3 0]).any
      fun s => s.reader = .loop 3 0 ∧ (Queue.dequeuePass (.standard false) s.q 3 0).returned = some none ∧
        s.q.queue.count = 4) = true := by
    decide +kernel
  obtain ⟨s, hs, hp⟩ := Machine.exists_reachableBy (M := localQueue (.standard false)) ⟨4, 2, 1, rfl⟩ hrun
  obtain ⟨hr, hret, hcount⟩ := of_decide_eq_true hp
  obtain ⟨q', hret⟩ := Pass.exists_of_returned hret
  refine ⟨s, q', hs, hr, hret, hcount, fun h => ?_⟩
  have := (h.2 rfl).2
  omega

end LocalState

end ProcessNetwork
