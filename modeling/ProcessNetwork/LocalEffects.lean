import ProcessNetwork.LocalFifo

/-!
# What a step does to a local queue

Beside the invariant of the queue, a user of it needs to know what a step leaves alone: the call in which a thread is, the
bytes that have been enqueued and dequeued, and what the writer has written through its pointers.
-/

namespace ProcessNetwork

/-- The threshold and the channel of the call in which the reader is. -/
def ReaderPc.call : ReaderPc → Option (Nat × Nat)
  | idle => none
  | loop thresh chan | waiting thresh chan => some (thresh, chan)

def WriterPc.call : WriterPc → Option (Nat × Nat)
  | idle => none
  | loop thresh chan _ | waiting thresh chan _ => some (thresh, chan)

namespace LocalState

variable {k : KernelBase} {s s' : LocalState} {t c n : Nat} {l : LocalAct}

/-- A thread goes on in its call, or it leaves it; only the two calls themselves bring it inside. -/
structure Affects (s : LocalState) (l : LocalAct) (s' : LocalState) : Prop where
  numChannels : s'.q.queue.numChannels = s.q.queue.numChannels
  enqueued : (∀ n, l ≠ .enqueue n) → s'.enqueued = s.enqueued
  written : (∀ n, l ≠ .enqueue n) → (∀ p off b, l ≠ .write p off b) → s'.written = s.written
  reader : s'.reader.call = none ∨ s'.reader.call = s.reader.call ∨
    ∃ t c, l = .getRawDequeuePtr t c ∧ s'.reader.call = some (t, c)
  writer : s'.writer.call = none ∨ s'.writer.call = s.writer.call ∨
    ∃ t c, l = .getRawEnqueuePtr t c ∧ s'.writer.call = some (t, c)

private theorem Affects.of_queue (hnum : s'.q.queue.numChannels = s.q.queue.numChannels) (henq : s'.enqueued = s.enqueued)
    (hwritten : s'.written = s.written) (hreader : s'.reader.call = none ∨ s'.reader.call = s.reader.call)
    (hwriter : s'.writer.call = none ∨ s'.writer.call = s.writer.call) : Affects s l s' :=
  ⟨hnum, fun _ => henq, fun _ _ => hwritten, hreader.imp_right .inl, hwriter.imp_right .inl⟩

private theorem DequeueStep.affects (h : DequeueStep k s t c s') (hr : s.reader = .loop t c) : Affects s l s' := by
  have hcall : s.reader.call = some (t, c) := by
    rw [hr]
    rfl
  cases h with
  | pointer => exact .of_queue rfl rfl rfl (.inl rfl) (.inr rfl)
  | ends => exact .of_queue rfl rfl rfl (.inl rfl) (.inr rfl)
  | grows len hin hsd hcar hg => exact .of_queue hg.queue.numChannels rfl rfl (.inr rfl) (.inr rfl)
  | blocks => exact .of_queue rfl rfl rfl (.inr hcall.symm) (.inr rfl)
  | goesOn => exact .of_queue rfl rfl rfl (.inr rfl) (.inr rfl)

private theorem EnqueueStep.affects {grown : Bool} (h : EnqueueStep k s t c grown s') (hw : s.writer = .loop t c grown) :
    Affects s l s' := by
  have hcall : s.writer.call = some (t, c) := by
    rw [hw]
    rfl
  cases h with
  | pointer => exact .of_queue rfl rfl rfl (.inr rfl) (.inl rfl)
  | ends => exact .of_queue rfl rfl rfl (.inr rfl) (.inl rfl)
  | raises len hin hsd hm hcar hg => exact .of_queue hg.queue.numChannels rfl rfl (.inr rfl) (.inr hcall.symm)
  | grows hin hsd hm hb hcar hg => exact .of_queue hg.queue.numChannels rfl rfl (.inr rfl) (.inr hcall.symm)
  | blocks => exact .of_queue rfl rfl rfl (.inr rfl) (.inr hcall.symm)
  | goesOn => exact .of_queue rfl rfl rfl (.inr rfl) (.inr hcall.symm)

theorem Sound.enqueue_eq (h : Sound s) (hn : n ≤ if s.q.inenqueue then s.q.enqueuethresh else 0)
    (hsd : s.q.writeshutdown = false) : (s.enqueue n).enqueued = (fun c => s.enqueued c ++ s.newBytes n c) ∧
      (s.enqueue n).written = (fun _ _ => none) ∧ (s.enqueue n).reader = s.reader ∧ (s.enqueue n).writer = s.writer ∧
      (s.enqueue n).q.queue.numChannels = s.q.queue.numChannels := by
  obtain ⟨q', hok, -, -, hshape, -, -⟩ := h.carries.internalEnqueue (enqueue_le_getD hn)
    (b := { s.q.toQueueBase with enqueuethresh := 0, inenqueue := false }) rfl rfl
  unfold LocalState.enqueue
  rw [if_neg (by simpa using hsd)]
  dsimp only at hok ⊢
  rw [hok]
  obtain ⟨cond, hnotify⟩ := Queue.notifyData_eq q'
  refine ⟨rfl, rfl, rfl, rfl, ?_⟩
  dsimp only
  rw [hnotify]
  exact hshape.numChannels

theorem Sound.write_eq (h : Sound s) {p : HeldPtr} {off : Nat} (b : Byte) (hp : p ∈ s.writerPtrs) (hoff : off < p.thresh) :
    ∃ q', s.write p off b = { s with
      q := q', written := Function.update s.written p.chan (Function.update (s.written p.chan) off (some b)) } ∧
      q'.queue.numChannels = s.q.queue.numChannels := by
  obtain ⟨hin, -, hthresh, hptr⟩ := h.writerPtrs p hp
  have hcar := h.carries
  rw [QueueBase.outEnqueue, if_pos hin] at hcar
  have hlt : off < s.q.enqueuethresh := by omega
  obtain ⟨q', hok, -, hst⟩ := hcar.store hlt p.chan b
  refine ⟨q', ?_, hst.queue.numChannels⟩
  rw [LocalState.write, hptr, hok]

theorem dequeue_eq (s : LocalState) (n : Nat) : (s.dequeue n).enqueued = s.enqueued ∧ (s.dequeue n).written = s.written ∧
    (s.dequeue n).reader = s.reader ∧ (s.dequeue n).writer = s.writer ∧
    (s.dequeue n).q.queue.numChannels = s.q.queue.numChannels ∧
    (s.q.readshutdown = false → (s.dequeue n).dequeued = s.dequeued + n) := by
  unfold LocalState.dequeue
  dsimp only
  split_ifs with hsd
  · exact ⟨rfl, rfl, rfl, rfl, rfl, fun h => by rw [hsd] at h; cases h⟩
  · refine ⟨rfl, rfl, rfl, rfl, ?_, fun _ => rfl⟩
    obtain ⟨cond, hnotify⟩ := Queue.notifyFreespace_eq
      (({ s.q with dequeuethresh := 0, indequeue := false } : ThresholdQueue).internalDequeue n)
    rw [hnotify]
    unfold ThresholdQueue.internalDequeue
    split_ifs
    · rfl
    · rfl

theorem Sound.affects (h : Sound s) (hok : s.NotBroken l) (hs : Step k s l s') : Affects s l s' := by
  cases hs with
  | getRawDequeuePtr hlock hr hc =>
    unfold LocalState.getRawDequeuePtr
    split_ifs
    · exact ⟨rfl, fun _ => rfl, fun _ _ => rfl, .inr (.inr ⟨_, _, rfl, rfl⟩), .inr (.inl rfl)⟩
    · exact .of_queue rfl rfl rfl (.inr rfl) (.inr rfl)
    · exact ⟨rfl, fun _ => rfl, fun _ _ => rfl, .inr (.inr ⟨_, _, rfl, rfl⟩), .inr (.inl rfl)⟩
  | dequeuePass hr =>
    have hat := h.reader
    rw [hr] at hat
    exact (dequeuePass_step h.carries hat.2).affects hr
  | readerWakes hr =>
    unfold LocalState.readerWakes
    split_ifs
    · exact .of_queue rfl rfl rfl (.inr rfl) (.inr rfl)
    · exact .of_queue rfl rfl rfl (.inr (by rw [hr]; rfl)) (.inr rfl)
  | dequeue hlock hr hn =>
    obtain ⟨henq, hwritten, hreader, hwriter, hnum, -⟩ := dequeue_eq s _
    exact .of_queue hnum henq hwritten (.inr (by rw [hreader])) (.inr (by rw [hwriter]))
  | getRawEnqueuePtr hlock hw hc =>
    unfold LocalState.getRawEnqueuePtr
    split_ifs
    · exact ⟨rfl, fun _ => rfl, fun _ _ => rfl, .inr (.inl rfl), .inr (.inr ⟨_, _, rfl, rfl⟩)⟩
    · exact .of_queue rfl rfl rfl (.inr rfl) (.inr rfl)
    · exact ⟨rfl, fun _ => rfl, fun _ _ => rfl, .inr (.inl rfl), .inr (.inr ⟨_, _, rfl, rfl⟩)⟩
  | enqueuePass hw =>
    have hat := h.writer
    rw [hw] at hat
    exact (enqueuePass_step h.carries hat.2).affects hw
  | writerWakes hw =>
    unfold LocalState.writerWakes
    split_ifs
    · exact .of_queue rfl rfl rfl (.inr rfl) (.inr rfl)
    · exact .of_queue rfl rfl rfl (.inr rfl) (.inr (by rw [hw]; rfl))
  | @write p off b hw hp hoff =>
    obtain ⟨q', hwrite, hnum⟩ := h.write_eq b hp hoff
    rw [hwrite]
    -- a write changes what is written, and nothing else that is compared
    exact ⟨hnum, fun _ => rfl, fun _ hnot => absurd rfl (hnot p off b), .inr (.inl rfl), .inr (.inl rfl)⟩
  | @enqueue n hlock hw hn =>
    obtain ⟨-, -, hreader, hwriter, hnum⟩ := h.enqueue_eq hn hok
    exact ⟨hnum, fun hnot => absurd rfl (hnot n), fun hnot => absurd rfl (hnot n), .inr (.inl (by rw [hreader])),
      .inr (.inl (by rw [hwriter]))⟩
  | @grow len mt hlock =>
    obtain ⟨q', hgrow, hk, -⟩ | ⟨hsame, -⟩ := h.grow_cases (k := k) len mt
    · rw [hgrow]
      exact .of_queue hk.numChannels rfl rfl (.inr rfl) (.inr rfl)
    · rw [hsame]
      exact .of_queue rfl rfl rfl (.inr rfl) (.inr rfl)
  | shutdownReader => exact .of_queue rfl rfl rfl (.inr rfl) (.inr rfl)
  | shutdownWriter => exact .of_queue rfl rfl rfl (.inr rfl) (.inr rfl)
  | detect hw =>
    have hat := h.writer
    rw [hw] at hat
    obtain ⟨q', hok, hk, -⟩ := h.unlockedGrow (k := k) (.inl hat.2.1)
      (k.calculateGrowSize s.q.queue.count s.q.writerequest) s.q.writerequest
    rw [LocalState.detect, hok]
    exact .of_queue hk.numChannels rfl rfl (.inr rfl) (.inr rfl)
  | deadlock => exact .of_queue rfl rfl rfl (.inl rfl) (.inr rfl)
  | spuriousWakeup => exact .of_queue rfl rfl rfl (.inr rfl) (.inr rfl)

/-- What `Enqueue` appends is what the writer has written, when it has written everything. -/
theorem newBytes_of_written (hw : ∀ off < n, (s.written c off).isSome = true) :
    s.newBytes n c = (List.range n).map fun off => (s.written c off).getD 0 := by
  have hlength : (s.q.enqueueRegion c n).length = n := by
    simp [ThresholdQueue.enqueueRegion, ThresholdQueueBase.enqueueRegion]
  refine List.ext_getElem (by simp [newBytes, hlength]) fun off h h' => ?_
  rw [List.length_map, List.length_range] at h'
  obtain ⟨b, hb⟩ := Option.isSome_iff_exists.1 (hw off h')
  simp [newBytes, hb]

end LocalState

end ProcessNetwork
