import ProcessNetwork.Passes
import ProcessNetwork.RemoteProtocol

/-!
# What the methods of a remote queue do

One lemma for each section of `RemoteQueue`, in three parts: what happens to the fields that say what the queue carries
(`Frame`), what happens to the books, and which packets are sent.  Most sections leave the frame alone; the exceptions
are the growths and the two halves of `EnqueuePacket` and `SendEnqueuePacket`.
-/

namespace ProcessNetwork

open ThresholdQueue (Carries GrownTo Stale)

/-- The fields that say what a remote queue carries and for whom. -/
structure Frame where
  mode : Mode
  queue : ThresholdQueueBase
  oldqueue : Option ThresholdQueueBase
  enqueueUseOld : Bool
  dequeueUseOld : Bool
  inenqueue : Bool
  indequeue : Bool
  enqueuethresh : Nat
  dequeuethresh : Nat
  /-- the request of the node at this end -/
  request : Nat

def RemoteQueue.frame (q : RemoteQueue) : Frame where
  mode := q.mode
  queue := q.queue
  oldqueue := q.oldqueue
  enqueueUseOld := q.enqueueUseOld
  dequeueUseOld := q.dequeueUseOld
  inenqueue := q.inenqueue
  indequeue := q.indequeue
  enqueuethresh := q.enqueuethresh
  dequeuethresh := q.dequeuethresh
  request := match q.mode with
    | .read => q.readrequest
    | .write => q.writerequest

namespace ThresholdQueue

variable {q q' : ThresholdQueue} {f : Nat → List Byte} {e d : Option Nat}

/-- The queue carries the contents of its ring. -/
def Stored (q : ThresholdQueue) (e d : Option Nat) : Prop := q.Carries q.queue.contents e d

theorem Carries.contents_eq (h : q.Carries f e d) {c : Nat} (hc : c < q.queue.numChannels) : q.queue.contents c = f c :=
  h.holds.contents_eq hc

theorem Carries.stored (h : q.Carries f e d) : q.Stored e d :=
  h.congr fun _ hc => (h.contents_eq hc).symm

/-- The flag of an open enqueue is kept in `inenqueue`, or, after an `Enqueue` that threw, in `enqueueUseOld`. -/
theorem Carries.enqueueUseOld_eq (h : q.Carries f e d) (hin : q.inenqueue = false) : q.enqueueUseOld = e.isSome := by
  cases e with
  | none => exact h.not_useOld_enqueue
  | some n =>
    rcases h.inenqueue with h | h
    · rw [hin] at h
      cases h
    · exact h.2

theorem Carries.dequeueUseOld_eq (h : q.Carries f e d) (hin : q.indequeue = false) : q.dequeueUseOld = d.isSome := by
  cases d with
  | none => exact h.not_useOld_dequeue
  | some n =>
    rcases h.indequeue with h | h
    · rw [hin] at h
      cases h
    · exact h.2

private theorem Carries.isSome_of_inenqueue (h : q.Carries f e d) (hin : q.inenqueue = true) : e.isSome = true := by
  rcases h.inenqueue with h | h
  · rw [← h, hin]
  · rw [hin] at h
    cases h.1

private theorem Carries.isSome_of_indequeue (h : q.Carries f e d) (hin : q.indequeue = true) : d.isSome = true := by
  rcases h.indequeue with h | h
  · rw [← h, hin]
  · rw [hin] at h
    cases h.1

/-- An outstanding enqueue stays what it was. -/
structure SameEnqueue (q q' : ThresholdQueue) : Prop where
  inenqueue : q'.inenqueue = q.inenqueue
  enqueuethresh : q'.enqueuethresh = q.enqueuethresh
  enqueuePtr : q.inenqueue = true → ∀ c, q'.enqueuePtr c = q.enqueuePtr c
  enqueueRegion : q.inenqueue = true → ∀ c n, q'.enqueueRegion c n = q.enqueueRegion c n

/-- An outstanding dequeue stays what it was. -/
structure SameDequeue (q q' : ThresholdQueue) : Prop where
  indequeue : q'.indequeue = q.indequeue
  dequeuethresh : q'.dequeuethresh = q.dequeuethresh
  dequeuePtr : q.indequeue = true → ∀ c, q'.dequeuePtr c = q.dequeuePtr c

end ThresholdQueue

open ThresholdQueue (SameEnqueue SameDequeue)
open ThresholdQueueBase (SameShape)

namespace RemoteQueue

variable {q q' : RemoteQueue} {f : Nat → List Byte} {e d : Option Nat} {k : KernelBase}

private theorem stored_of_frame (h : q.toThresholdQueue.Stored e d) (hf : q'.frame = q.frame) :
    q'.toThresholdQueue.Stored e d := by
  simp only [frame, Frame.mk.injEq] at hf
  obtain ⟨-, h1, h2, h3, h4, h5, h6, -⟩ := hf
  have hst : q'.toThresholdQueue.Carries _ _ _ := h.of_eq h1 h2 h3 h4 h5 h6
  rwa [← h1] at hst

/-- Neither the frame nor the books change. -/
structure Still (q q' : RemoteQueue) : Prop where
  frame : q'.frame = q.frame
  books : q'.books = q.books

theorem Still.refl (q : RemoteQueue) : Still q q := ⟨rfl, rfl⟩

theorem still_signal (q : RemoteQueue) : Still q q.signal := ⟨rfl, rfl⟩

/-! ### Growth -/

/-- What a growth does: the lengths are raised, and what the queue carries stays the same. -/
structure GrewTo (q : RemoteQueue) (e d : Option Nat) (queueLen maxThresh : Nat) (pendingGrow : Bool)
    (q' : RemoteQueue) : Prop where
  stored : q'.toThresholdQueue.Stored e d
  enqueue : SameEnqueue q.toThresholdQueue q'.toThresholdQueue
  dequeue : SameDequeue q.toThresholdQueue q'.toThresholdQueue
  mode : q'.mode = q.mode
  numChannels : q'.queue.numChannels = q.queue.numChannels
  count : q'.queue.count = q.queue.count
  readrequest : q'.readrequest = q.readrequest
  writerequest : q'.writerequest = q.writerequest
  books : q'.books = { q.books with
    readerlength := queueLength queueLen (max q.queue.maxThreshold maxThresh) q.alpha .read
    writerlength := queueLength queueLen (max q.queue.maxThreshold maxThresh) q.alpha .write
    pendingGrow := pendingGrow }
  length : q'.queue.queueLength =
    max q.queue.queueLength (queueLength queueLen (max q.queue.maxThreshold maxThresh) q.alpha q.mode)
  maxThreshold : q'.queue.maxThreshold = max q.queue.maxThreshold maxThresh
  contents : ∀ c < q.queue.numChannels, q'.queue.contents c = q.queue.contents c

private theorem le_queueLength (len mt : Nat) (alpha : Alpha) (m : Mode) : mt ≤ queueLength len mt alpha m := by
  cases m <;> exact Nat.le_max_right _ _

private theorem growTo_cases (malloc : Malloc) (h : q.toThresholdQueue.Stored e d)
    (hed : ¬(q.inenqueue = true ∧ q.indequeue = true)) (len mt : Nat) :
    (∃ q', q.growTo malloc len mt = .ok q' ∧ GrewTo q e d len mt q.pendingGrow q') ∨
    q.Stale ∧ ∃ fault, q.growTo malloc len mt = .error fault := by
  have hle := le_queueLength len (max q.queue.maxThreshold mt) q.alpha q.mode
  rcases h.unlockedGrow_cases malloc hed (queueLength len (max q.queue.maxThreshold mt) q.alpha q.mode)
    (max q.queue.maxThreshold mt) with ⟨base, hok, hc, hg⟩ | ⟨hs, fault, herr⟩
  · have hbase := hg.toQueueBase
    have hlen := hg.queue.queueLength
    have hmt := hg.queue.maxThreshold
    refine .inl ⟨{ q with
      toThresholdQueue := base
      readerlength := queueLength len (max q.queue.maxThreshold mt) q.alpha .read
      writerlength := queueLength len (max q.queue.maxThreshold mt) q.alpha .write }, ?_, ?_⟩
    · rw [growTo, hok]
      rfl
    · refine ⟨hc.stored, ⟨by rw [hbase], by rw [hbase], fun hin => hg.enqueuePtr (h.isSome_of_inenqueue hin),
        fun hin => hg.enqueueRegion (h.isSome_of_inenqueue hin)⟩,
        ⟨by rw [hbase], by rw [hbase], fun hin => hg.dequeuePtr (h.isSome_of_indequeue hin)⟩, rfl, hg.queue.numChannels,
        hg.queue.count, by rw [hbase], by rw [hbase], ?_, ?_, ?_, ?_⟩
      · simp only [RemoteQueue.books, hbase]
      · dsimp only
        omega
      · dsimp only
        omega
      · intro c hc'
        exact hc.contents_eq (by rw [hg.queue.numChannels]; exact hc')
  · refine .inr ⟨hs, fault, ?_⟩
    rw [growTo, herr]
    rfl

theorem finishGrow_cases (malloc : Malloc) (h : q.toThresholdQueue.Stored e d)
    (hed : ¬(q.inenqueue = true ∧ q.indequeue = true)) (len mt : Nat) :
    (∃ q', q.finishGrow malloc len mt = .ok q' ∧ GrewTo q e d len mt true q') ∨
    q.Stale ∧ ∃ fault, q.finishGrow malloc len mt = .error fault := by
  rcases growTo_cases malloc h hed len mt with ⟨q', hok, hg⟩ | ⟨hs, fault, herr⟩
  · refine .inl ⟨{ q' with pendingGrow := true }.signal, by rw [finishGrow, hok]; rfl, ?_⟩
    refine ⟨stored_of_frame hg.stored rfl, ⟨hg.enqueue.1, hg.enqueue.2, hg.enqueue.3, hg.enqueue.4⟩,
      ⟨hg.dequeue.1, hg.dequeue.2, hg.dequeue.3⟩, hg.mode, hg.numChannels, hg.count, hg.readrequest, hg.writerequest,
        ?_, hg.length,
      hg.maxThreshold, hg.contents⟩
    have hb := hg.books
    simp only [RemoteQueue.books, Books.mk.injEq, signal] at hb ⊢
    simp_all
  · exact .inr ⟨hs, fault, by rw [finishGrow, herr]; rfl⟩

/-- What `UnlockedGrow` does: nothing, nothing yet, or a growth; it fails only if an old ring was left behind. -/
theorem unlockedGrow_cases (h : q.toThresholdQueue.Stored e d) (hed : ¬(q.inenqueue = true ∧ q.indequeue = true))
    (len mt : Nat) :
    (∃ q', (q.unlockedGrow k len mt = .ok (.done q') ∨ q.unlockedGrow k len mt = .ok (.waits q')) ∧ Still q q') ∨
    (∃ q', q.unlockedGrow k len mt = .ok (.done q') ∧ q.growth len mt = some (len, mt) ∧ GrewTo q e d len mt true q') ∨
    q.Stale ∧ ∃ fault, q.unlockedGrow k len mt = .error fault := by
  unfold unlockedGrow
  split_ifs with hle hpend
  · exact .inl ⟨q, .inl rfl, .refl q⟩
  · exact .inl ⟨q.signal, .inr rfl, still_signal q⟩
  · rcases finishGrow_cases k.malloc h hed len mt with ⟨q', hok, hg⟩ | ⟨hs, fault, herr⟩
    · exact .inr (.inl ⟨q', by rw [hok]; rfl, if_neg (not_or.2 ⟨hle, hpend⟩), hg⟩)
    · exact .inr (.inr ⟨hs, fault, by rw [herr]; rfl⟩)

private theorem GrewTo.signal {len mt : Nat} {b : Bool} (h : GrewTo q e d len mt b q') : GrewTo q e d len mt b q'.signal :=
  ⟨stored_of_frame h.stored rfl, ⟨h.enqueue.1, h.enqueue.2, h.enqueue.3, h.enqueue.4⟩,
    ⟨h.dequeue.1, h.dequeue.2, h.dequeue.3⟩, h.mode, h.numChannels, h.count, h.readrequest, h.writerequest, h.books,
    h.length, h.maxThreshold, h.contents⟩

/-- The same in a pass of a blocking loop. -/
theorem growPass_cases (h : q.toThresholdQueue.Stored e d) (hed : ¬(q.inenqueue = true ∧ q.indequeue = true))
    (len mt : Nat) :
    (∃ q', (Queue.growPass k q len mt = .again q' ∨ Queue.growPass k q len mt = .growing q' len mt) ∧ Still q q') ∨
    (∃ q', Queue.growPass k q len mt = .again q' ∧ q.growth len mt = some (len, mt) ∧ GrewTo q e d len mt true q') ∨
    q.Stale ∧ ∃ fault, Queue.growPass k q len mt = .fails fault := by
  have heq : Queue.unlockedGrow k q len mt = q.unlockedGrow k len mt := rfl
  rcases unlockedGrow_cases (k := k) h hed len mt with ⟨q', hok | hok, hs⟩ | ⟨q', hok, hgr, hg⟩ | ⟨hs, fault, herr⟩
  · exact .inl ⟨q'.signal, .inl (by rw [Queue.growPass, heq, hok]; rfl), hs.frame, hs.books⟩
  · exact .inl ⟨q', .inr (by rw [Queue.growPass, heq, hok]), hs⟩
  · exact .inr (.inl ⟨q'.signal, by rw [Queue.growPass, heq, hok]; rfl, hgr, hg.signal⟩)
  · exact .inr (.inr ⟨hs, fault, by rw [Queue.growPass, heq, herr]⟩)

/-! ### Sections that only send -/

theorem frame_mode (h : q'.frame = q.frame) : q'.mode = q.mode := congrArg Frame.mode h

theorem peerShutdown_read (hm : q.mode = .read) : q.books.peerShutdown = q.writeshutdown := by
  rw [RemoteQueue.books, hm]

theorem peerShutdown_write (hm : q.mode = .write) : q.books.peerShutdown = q.readshutdown := by
  rw [RemoteQueue.books, hm]

private theorem setupPacket_spec (q : RemoteQueue) (p : Packet) :
    Still q (q.setupPacket p).1 ∧ (q.setupPacket p).2.type = p.type ∧
      (q.setupPacket p).2.dataLength = p.dataLength := by
  unfold setupPacket
  cases hm : q.mode <;> exact ⟨⟨by simp [frame, hm], by simp [books, hm]⟩, rfl, rfl⟩

/-- A section that sends packets about blocking and tags. -/
structure Informed (q : RemoteQueue) (r : Sends) : Prop where
  still : Still q r.1
  packets : ∀ p ∈ r.2, p.Informs q.mode

private theorem Informed.nil (h : Still q q') : Informed q (q', []) := ⟨h, fun _ hp => absurd hp List.not_mem_nil⟩

private theorem Informed.andThen {r : Sends} {g : RemoteQueue → Sends} (h : Informed q r) (hg : Informed r.1 (g r.1)) :
    Informed q (r.andThen g) where
  still := ⟨hg.still.frame.trans h.still.frame, hg.still.books.trans h.still.books⟩
  packets p hp := by
    rcases List.mem_append.1 hp with hp | hp
    · exact h.packets p hp
    · rw [← frame_mode h.still.frame]
      exact hg.packets p hp

private theorem informed_sendIf (b : Bool) (send : RemoteQueue → RemoteQueue × Packet)
    {done : RemoteQueue → RemoteQueue} (h1 : Still q (send q).1) (h2 : (send q).2.Informs q.mode)
    (h3 : ∀ q, Still q (done q)) :
    Informed q (q.sendIf b send done) := by
  unfold sendIf
  split_ifs
  · refine ⟨⟨(h3 _).frame.trans h1.frame, (h3 _).books.trans h1.books⟩, fun p hp => ?_⟩
    rw [List.mem_singleton] at hp
    rwa [hp]
  · exact .nil (.refl q)

private theorem informed_block (q : RemoteQueue) : Informed q q.sendPendingBlock := by
  unfold sendPendingBlock
  split_ifs
  · cases hm : q.mode with
    | read =>
      obtain ⟨h1, h2, h3⟩ := q.setupPacket_spec (.init 0 .readBlock)
      have hsend := informed_sendIf (q.readrequest > q.queue.count) sendReadBlockPacket h1
        ⟨h3, .inr (by rw [hm]; exact h2)⟩ fun q => .refl q
      exact hsend.andThen (.nil ⟨rfl, rfl⟩)
    | write =>
      obtain ⟨h1, h2, h3⟩ := q.setupPacket_spec (.init 0 .writeBlock)
      have hsend := informed_sendIf (q.writerequest > q.queue.freespace) sendWriteBlockPacket h1
        ⟨h3, .inr (by rw [hm]; exact h2)⟩ fun q => .refl q
      exact hsend.andThen (.nil ⟨rfl, rfl⟩)
  · exact .nil (.refl q)

private theorem informed_tag (q : RemoteQueue) : Informed q q.sendPendingD4RTag := by
  obtain ⟨h1, h2, h3⟩ := q.setupPacket_spec (.init 0 .d4rTag)
  unfold sendPendingD4RTag
  exact informed_sendIf _ _ h1 ⟨h3, .inl h2⟩ fun q => ⟨rfl, rfl⟩

/-- A section that may announce the end. -/
structure Ended (q : RemoteQueue) (r : Sends) (e : Option Packet) : Prop where
  frame : r.1.frame = q.frame
  books : r.1.books = { q.books with sentEnd := q.sentEnd || e.isSome, dead := r.1.dead }
  packets : r.2 = e.toList
  ends : ∀ p ∈ e, q.sentEnd = false ∧ p.Ends q.mode
  dead : r.1.dead = true → q.dead = true ∨ q.books.peerShutdown = true ∧ r.1.sentEnd = true

private theorem Ended.sentEnd {r : Sends} {e : Option Packet} (h : Ended q r e) : r.1.sentEnd = (q.sentEnd || e.isSome) :=
  congrArg Books.sentEnd h.books

private theorem Ended.nil (q : RemoteQueue) : Ended q (q, []) none :=
  ⟨rfl, by simp [RemoteQueue.books], rfl, nofun, .inl⟩

/-- The end is announced once. -/
theorem Ended.andThen {r : Sends} {g : RemoteQueue → Sends} {e e' : Option Packet} (h : Ended q r e)
    (hg : Ended r.1 (g r.1) e') : Ended q (r.andThen g) (e.or e') where
  frame := hg.frame.trans h.frame
  books := by
    show (g r.1).1.books = _
    rw [hg.books, h.books, h.sentEnd]
    cases e <;> simp [Sends.andThen]
  packets := by
    show r.2 ++ (g r.1).2 = _
    rw [h.packets, hg.packets]
    cases e with
    | none => rfl
    | some p =>
      cases e' with
      | none => rfl
      | some p' => simpa [h.sentEnd] using (hg.ends p' rfl).1
  ends p hp := by
    rw [Option.mem_def, Option.or_eq_some_iff] at hp
    rcases hp with hp | ⟨-, hp⟩
    · exact h.ends p hp
    · obtain ⟨h1, h2⟩ := hg.ends p hp
      rw [h.sentEnd, Bool.or_eq_false_iff] at h1
      exact ⟨h1.1, frame_mode h.frame ▸ h2⟩
  dead hd := by
    have hpeer : r.1.books.peerShutdown = q.books.peerShutdown := by rw [h.books]
    rcases hg.dead hd with hd | ⟨h1, h2⟩
    · refine (h.dead hd).imp id fun ⟨h1, h2⟩ => ⟨h1, ?_⟩
      show (g r.1).1.sentEnd = true
      rw [hg.sentEnd, h2, Bool.true_or]
    · exact .inr ⟨hpeer ▸ h1, h2⟩

private theorem ended_sendIf {b : Bool} {type : PacketType} (hb : b = true → q.sentEnd = false)
    (htype : type = match q.mode with
      | .read => .endOfRead
      | .write => .endOfWrite) :
    ∃ e, Ended q (q.sendIf b (fun q => q.setupPacket (.init 0 type)) fun q => { q with sentEnd := true }) e ∧
      e.isSome = b := by
  cases b with
  | false => exact ⟨none, .nil q, rfl⟩
  | true =>
    obtain ⟨h1, h2, h3⟩ := q.setupPacket_spec (.init 0 type)
    refine ⟨some (q.setupPacket (.init 0 type)).2, ⟨h1.frame, ?_, rfl, ?_, fun hd => .inl ?_⟩, rfl⟩
    · have hbooks := h1.books
      simp only [RemoteQueue.books, Books.mk.injEq] at hbooks
      simp [sendIf, RemoteQueue.books, hbooks]
    · rintro _ ⟨⟩
      exact ⟨hb rfl, h3, h2.trans htype⟩
    · exact (congrArg Books.dead h1.books).symm.trans hd

/-- `sock.Close()` after the end was announced. -/
private theorem ended_close {b : Bool} (type : PacketType) (hb : b = true → q.books.peerShutdown = true)
    (htype : type = match q.mode with
      | .read => .endOfRead
      | .write => .endOfWrite) :
    ∃ e, Ended q (if b then
      (q.sendIf (!q.sentEnd) (fun q => q.setupPacket (.init 0 type)) fun q => { q with sentEnd := true }).andThen
        fun q => (q.close, [])
      else (q, [])) e := by
  cases b with
  | false => exact ⟨none, .nil q⟩
  | true =>
    obtain ⟨e, he, hsome⟩ := ended_sendIf (q := q) (b := !q.sentEnd) (by simp) htype
    have hclose : ∀ q : RemoteQueue, q.books.peerShutdown = true → q.sentEnd = true → Ended q (q.close, []) none := by
      intro q hp hs
      exact ⟨rfl, by simp [RemoteQueue.books, close], rfl, nofun, fun _ => .inr ⟨hp, hs⟩⟩
    rw [if_pos rfl]
    refine ⟨e.or none, he.andThen (hclose _ ((congrArg Books.peerShutdown he.books).trans (hb rfl)) ?_)⟩
    rw [he.sentEnd, hsome]
    simp

/-- A section that sends a report. -/
structure Reported (q : RemoteQueue) (r : Sends) (R : Endpoint.Report) : Prop where
  frame : r.1.frame = q.frame
  books : r.1.books = R.send q.books q.queue.count r.1.dead
  packets : r.2 = R.packets
  fits : R.Fits q.books q.queue.count q.queue.maxThreshold q.mode
  dead : r.1.dead = true → q.dead = true ∨ q.books.peerShutdown = true ∧ (q.sentEnd || R.ends.isSome) = true

/-- First packets about blocking and tags and then the end. -/
private theorem reported_of_stages {r : Sends} {g : RemoteQueue → Sends} {e : Option Packet} (h : Informed q r)
    (hend : r.2 ≠ [] → q.sentEnd = false) (hg : Ended r.1 (g r.1) e) :
    Reported q (r.andThen g) ⟨none, none, r.2, e⟩ := by
  have hsent : r.1.sentEnd = q.sentEnd := congrArg Books.sentEnd h.still.books
  refine ⟨hg.frame.trans h.still.frame, ?_, ?_, ?_, fun hd => ?_⟩
  · show (g r.1).1.books = _
    rw [hg.books, h.still.books, hsent]
    simp [Endpoint.Report.send, Sends.andThen, RemoteQueue.books]
  · show r.2 ++ (g r.1).2 = _
    rw [hg.packets]
    rfl
  · refine ⟨nofun, nofun, fun p hp => ?_,
      fun p hp => ?_⟩
    · exact ⟨hend (List.ne_nil_of_mem hp), h.packets p hp⟩
    · obtain ⟨h1, h2⟩ := hg.ends p hp
      exact ⟨hsent.symm.trans h1, frame_mode h.still.frame ▸ h2⟩
  · have hdead : r.1.dead = q.dead := congrArg Books.dead h.still.books
    have hpeer : r.1.books.peerShutdown = q.books.peerShutdown := congrArg Books.peerShutdown h.still.books
    rcases hg.dead hd with hd | ⟨h1, h2⟩
    · exact .inl (hdead ▸ hd)
    · refine .inr ⟨hpeer ▸ h1, ?_⟩
      rw [← hsent, ← hg.sentEnd]
      exact h2

private theorem andThen_assoc (r : Sends) (g h : RemoteQueue → Sends) :
    (r.andThen g).andThen h = r.andThen fun q => (g q).andThen h := by
  simp [Sends.andThen, List.append_assoc]

/-- The end is announced, and the socket closed when the other end is shut down. -/
private def endStages (b shut : RemoteQueue → Bool) (type : PacketType) (q : RemoteQueue) : Sends :=
  (q.sendIf (b q) (fun q => q.setupPacket (.init 0 type)) fun q => { q with sentEnd := true }).andThen fun q =>
    if shut q then
      (q.sendIf (!q.sentEnd) (fun q => q.setupPacket (.init 0 type)) fun q => { q with sentEnd := true }).andThen
        fun q => (q.close, [])
    else (q, [])

private theorem ended_stages {b s : RemoteQueue → Bool} {type : PacketType} (hb : b q = true → q.sentEnd = false)
    (hshut : ∀ q', q'.mode = q.mode → s q' = q'.books.peerShutdown)
    (htype : type = match q.mode with
      | .read => .endOfRead
      | .write => .endOfWrite) : ∃ e, Ended q (endStages b s type q) e := by
  obtain ⟨e, he, -⟩ := ended_sendIf hb htype
  have hmode := frame_mode he.frame
  obtain ⟨e', he'⟩ := ended_close type (fun hb => (hshut _ hmode).symm.trans hb) (htype.trans (by rw [hmode]))
  exact ⟨_, he.andThen he'⟩

theorem finishWrite_reported (hm : q.mode = .write) : ∃ R, Reported q q.finishWrite R ∧ R.grow = none := by
  obtain ⟨r, hr, hend, heq⟩ : ∃ r : Sends, Informed q r ∧ (r.2 ≠ [] → q.sentEnd = false) ∧
      (if q.sentEnd then (q, []) else q.sendPendingBlock.andThen sendPendingD4RTag) = r := by
    refine ⟨_, ?_, ?_, rfl⟩
    · split_ifs
      · exact .nil (.refl q)
      · exact (informed_block q).andThen (informed_tag _)
    · cases q.sentEnd <;> simp
  have hmode : r.1.mode = .write := (frame_mode hr.still.frame).trans hm
  obtain ⟨e, he⟩ := ended_stages (q := r.1) (b := fun q => q.writeshutdown && !q.sentEnd && q.queue.count = 0)
    (s := fun q => q.readshutdown) (by simp +contextual) (fun q' hq' => (peerShutdown_write (hq'.trans hmode)).symm)
    (by rw [hmode])
  unfold finishWrite
  by_cases hdead : (!q.sentEnd && q.dead) = true
  · rw [if_pos hdead]
    exact ⟨⟨none, none, [], none⟩, ⟨rfl, by simp [Endpoint.Report.send, RemoteQueue.books], rfl, by constructor <;> simp,
      .inl⟩, rfl⟩
  · rw [if_neg hdead]
    dsimp only
    rw [heq, andThen_assoc]
    exact ⟨_, reported_of_stages hr hend he, rfl⟩

/-- While there are bytes to report, the subtractions of `SendDequeuePacket` do not wrap. -/
private theorem sendDequeuePacket_spec (hlt : q.queue.count < q.bytecount) (hb : q.bytecount < 2 ^ 32) :
    q.sendDequeuePacket.1.frame = q.frame ∧
      q.sendDequeuePacket.1.books = { q.books with bytecount := q.queue.count } ∧
      q.sendDequeuePacket.2.type = .dequeue ∧ q.sendDequeuePacket.2.dataLength = 0 ∧
      q.sendDequeuePacket.2.count = q.bytecount - q.queue.count := by
  obtain ⟨h1, h2, h3⟩ := q.setupPacket_spec (.init 0 .dequeue)
  have hsub := sub32_of_le (Nat.le_of_lt hlt) hb
  have hsub' : sub32 q.bytecount (q.bytecount - q.queue.count) = q.queue.count := by
    rw [sub32_of_le (Nat.sub_le _ _) hb, Nat.sub_sub_self (Nat.le_of_lt hlt)]
  have hwrap : (q.wrapped || decide (q.bytecount < q.queue.count)) = q.wrapped := by
    simp [Nat.le_of_lt hlt]
  unfold sendDequeuePacket
  rw [hsub, hwrap]
  generalize q.setupPacket (.init 0 .dequeue) = r at h1 h2 h3 ⊢
  obtain ⟨q1, p1⟩ := r
  have hbytes : q1.bytecount = q.bytecount := congrArg Books.bytecount h1.books
  dsimp only at h2 h3 ⊢
  rw [hbytes, hsub']
  refine ⟨h1.frame, ?_, h2, h3, rfl⟩
  have hbooks := h1.books
  simp only [RemoteQueue.books, Books.mk.injEq] at hbooks ⊢
  simp [hbooks]

/-- The first section of the branch for mode `read`. -/
private theorem sendDequeue_spec (hb : q.bytecount < 2 ^ 32) {r : Sends}
    (hr : q.sendIf (q.bytecount > q.queue.count) sendDequeuePacket id = r) :
    ∃ d : Option Packet, r.1.frame = q.frame ∧
      r.1.books = { q.books with bytecount := if d.isSome then q.queue.count else q.bytecount } ∧ r.2 = d.toList ∧
      ∀ p ∈ d, q.queue.count < q.bytecount ∧ p.type = .dequeue ∧ p.dataLength = 0 ∧
        p.count = q.bytecount - q.queue.count := by
  by_cases hlt : q.queue.count < q.bytecount
  · obtain ⟨h1, h2, h3, h4, h5⟩ := sendDequeuePacket_spec hlt hb
    rw [sendIf, if_pos (by simpa using hlt)] at hr
    generalize q.sendDequeuePacket = r' at h1 h2 h3 h4 h5 hr
    subst hr
    refine ⟨some r'.2, h1, h2, rfl, ?_⟩
    intro p hp
    rw [Option.mem_def, Option.some_inj] at hp
    rw [← hp]
    exact ⟨hlt, h3, h4, h5⟩
  · rw [sendIf, if_neg (by simpa using hlt)] at hr
    subst hr
    exact ⟨none, rfl, rfl, rfl, nofun⟩

/-- A report after the packet about dequeued bytes. -/
private theorem Reported.afterDequeue {r : Sends} {g : RemoteQueue → Sends} {R : Endpoint.Report} {d : Option Packet}
    (hm : q.mode = .read) (hend : q.sentEnd = false) (hframe : r.1.frame = q.frame)
    (hbooks : r.1.books = { q.books with bytecount := if d.isSome then q.queue.count else q.bytecount })
    (hr : r.2 = d.toList) (hd : ∀ p ∈ d, q.queue.count < q.bytecount ∧ p.type = .dequeue ∧ p.dataLength = 0 ∧
      p.count = q.bytecount - q.queue.count)
    (hg : Reported r.1 (g r.1) R) (h1 : R.grow = none) (h2 : R.dequeue = none) :
    Reported q (r.andThen g) ⟨none, d, R.informs, R.ends⟩ := by
  obtain ⟨grow, dequeue, informs, ends⟩ := R
  obtain ⟨rfl, rfl⟩ : grow = none ∧ dequeue = none := ⟨h1, h2⟩
  have hfits := hg.fits
  have hmode := frame_mode hframe
  rw [hbooks, hmode] at hfits
  refine ⟨hg.frame.trans hframe, ?_, ?_, ⟨nofun, ?_, hfits.informs, hfits.ends⟩, fun hd' => ?_⟩
  · show (g r.1).1.books = _
    rw [hg.books, hbooks]
    simp [Endpoint.Report.send, Sends.andThen, RemoteQueue.books]
  · show r.2 ++ (g r.1).2 = _
    rw [hr, hg.packets]
    simp [Endpoint.Report.packets]
  · intro p hp
    exact ⟨hm, hend, hd p hp⟩
  · have h1 : r.1.dead = q.dead := congrArg Books.dead hbooks
    have h2 : r.1.sentEnd = q.sentEnd := congrArg Books.sentEnd hbooks
    have h3 : r.1.books.peerShutdown = q.books.peerShutdown := by rw [hbooks]
    rw [← h1, ← h2, ← h3]
    exact hg.dead hd'

theorem finishRead_reported (hm : q.mode = .read) (hb : q.bytecount < 2 ^ 32) :
    ∃ R, Reported q q.finishRead R ∧ R.grow = none := by
  unfold finishRead
  by_cases hend : q.sentEnd = true
  · rw [if_pos hend]
    obtain ⟨e, he⟩ := ended_close .endOfRead (q := q) (fun hb => (peerShutdown_read hm).trans hb) (by rw [hm])
    exact ⟨_, reported_of_stages (.nil (.refl q)) (by simp) he, rfl⟩
  · rw [if_neg hend]
    have hend : q.sentEnd = false := by simpa using hend
    dsimp only
    obtain ⟨d, hf, hbooks, hr, hd⟩ := sendDequeue_spec hb rfl
    generalize q.sendIf (q.bytecount > q.queue.count) sendDequeuePacket id = r at hf hbooks hr
    have hinf := (informed_block r.1).andThen (informed_tag _)
    have hsent : r.1.sentEnd = false := (congrArg Books.sentEnd hbooks).trans hend
    have hmode : ((r.1.sendPendingBlock).andThen sendPendingD4RTag).1.mode = .read :=
      (frame_mode hinf.still.frame).trans ((frame_mode hf).trans hm)
    obtain ⟨e, he⟩ := ended_stages (b := fun q => q.readshutdown) (s := fun q => q.writeshutdown)
      (fun _ => (congrArg Books.sentEnd hinf.still.books).trans hsent)
      (fun q' hq' => (peerShutdown_read (hq'.trans hmode)).symm) (by rw [hmode])
    have hrep := Reported.afterDequeue (g := fun q => (q.sendPendingBlock.andThen sendPendingD4RTag).andThen
      (endStages (fun q => q.readshutdown) (fun q => q.writeshutdown) .endOfRead)) hm hend hf hbooks hr hd
      (reported_of_stages hinf (fun _ => hsent) he) rfl rfl
    simp only [andThen_assoc] at hrep ⊢
    exact ⟨_, hrep, rfl⟩

private theorem sendGrowPacket_spec (q : RemoteQueue) :
    Still q q.sendGrowPacket.1 ∧ q.sendGrowPacket.2.type = .grow ∧ q.sendGrowPacket.2.dataLength = 0 ∧
      q.sendGrowPacket.2.queueSize = u32 (q.readerlength + q.writerlength) ∧
      q.sendGrowPacket.2.maxThreshold = q.queue.maxThreshold := by
  obtain ⟨h1, h2, h3⟩ := q.setupPacket_spec (.init 0 .grow)
  unfold sendGrowPacket
  generalize q.setupPacket (.init 0 .grow) = r at h1 h2 h3 ⊢
  obtain ⟨q1, p1⟩ := r
  have hr : q1.readerlength = q.readerlength := congrArg Books.readerlength h1.books
  have hw : q1.writerlength = q.writerlength := congrArg Books.writerlength h1.books
  have hq : q1.queue = q.queue := congrArg Frame.queue h1.frame
  dsimp only at h2 h3 ⊢
  rw [hr, hw, hq]
  exact ⟨h1, h2, h3, rfl, rfl⟩

/-- The section after `Read()`. -/
theorem sendPendingGrow_reported (q : RemoteQueue) :
    ∃ g, Reported q q.sendPendingGrow ⟨g, none, [], none⟩ := by
  obtain ⟨h1, h2, h3, h4, h5⟩ := q.sendGrowPacket_spec
  by_cases hp : (q.pendingGrow && !q.sentEnd) = true
  · have hp' : q.pendingGrow = true ∧ q.sentEnd = false := by simpa using hp
    refine ⟨some q.sendGrowPacket.2, ?_⟩
    rw [sendPendingGrow, sendIf, if_pos hp]
    generalize q.sendGrowPacket = r at h1 h2 h3 h4 h5 ⊢
    obtain ⟨q1, p1⟩ := r
    refine ⟨h1.frame, ?_, rfl, ⟨?_, nofun, nofun, nofun⟩, fun hd => .inl ?_⟩
    · have hbooks := h1.books
      simp only [RemoteQueue.books, Books.mk.injEq] at hbooks
      simp [Endpoint.Report.send, RemoteQueue.books, hbooks]
    · intro p hp
      rw [Option.mem_def, Option.some_inj] at hp
      rw [← hp]
      exact ⟨hp'.1, hp'.2, h2, h3, h4, h5⟩
    · exact (congrArg Books.dead h1.books).symm.trans hd
  · refine ⟨none, ?_⟩
    rw [sendPendingGrow, sendIf, if_neg hp]
    exact ⟨rfl, by simp [Endpoint.Report.send, RemoteQueue.books], rfl, ⟨nofun, nofun, nofun, nofun⟩, .inl⟩

/-- Another report after the pending grow packet. -/
theorem Reported.andThen {r : Sends} {f : RemoteQueue → Sends} {R : Endpoint.Report} {g : Option Packet}
    (h : Reported q r ⟨g, none, [], none⟩) (hR : Reported r.1 (f r.1) R) (hg : R.grow = none) :
    Reported q (r.andThen f) { R with grow := g } := by
  obtain ⟨grow, dequeue, informs, ends⟩ := R
  obtain rfl : grow = none := hg
  have hq : r.1.queue = q.queue := congrArg Frame.queue h.frame
  have hbooks := h.books
  simp only [Endpoint.Report.send] at hbooks
  have hfits := hR.fits
  rw [hbooks, hq, frame_mode h.frame] at hfits
  refine ⟨hR.frame.trans h.frame, ?_, ?_, ⟨h.fits.grow, ?_, ?_, ?_⟩, fun hd => ?_⟩
  · show (f r.1).1.books = _
    rw [hR.books, hbooks, hq]
    simp [Endpoint.Report.send, Sends.andThen]
  · show r.2 ++ (f r.1).2 = _
    rw [h.packets, hR.packets]
    simp [Endpoint.Report.packets]
  · intro p hp
    simpa using hfits.dequeue p hp
  · intro p hp
    simpa using hfits.informs p hp
  · intro p hp
    simpa using hfits.ends p hp
  · have h1 : r.1.sentEnd = q.sentEnd := (congrArg Books.sentEnd hbooks).trans (by simp [RemoteQueue.books])
    have h2 : r.1.books.peerShutdown = q.books.peerShutdown := by rw [hbooks]
    rcases hR.dead hd with hd | ⟨g1, g2⟩
    · refine (h.dead hd).imp id fun ⟨g1, g2⟩ => ⟨g1, ?_⟩
      rw [Option.isSome_none, Bool.or_false] at g2
      rw [g2, Bool.true_or]
    · exact .inr ⟨h2 ▸ g1, h1 ▸ g2⟩

/-! ### SendEnqueuePacket -/

theorem channelPtrs_eq {get : Nat → Except Fault (Option Ptr)} {text : String} {ptr : Nat → Ptr} {n : Nat}
    (h : ∀ chan < n, get chan = .ok (some (ptr chan))) : channelPtrs get text n = .ok ((List.range n).map ptr) := by
  induction n with
  | zero => rfl
  | succ n ih =>
    rw [channelPtrs, ih fun chan hc => h chan (Nat.lt_succ_of_lt hc), h n (Nat.lt_succ_self n), List.range_succ,
      List.map_append]
    rfl

private theorem sub32_le {a b : Nat} (h : b ≤ a) : sub32 a b ≤ a - b := by
  have hmod : u32 (a + 2 ^ 32 - b) = (a - b) % 2 ^ 32 := by
    rw [u32, show a + 2 ^ 32 - b = a - b + 2 ^ 32 by omega, Nat.add_mod_right]
  rw [sub32, hmod]
  exact Nat.mod_le _ _

theorem sendEnqueueCount_le (h : q.bytecount < q.readerlength) :
    q.sendEnqueueCount ≤ q.queue.count ∧ q.sendEnqueueCount ≤ q.queue.maxThreshold ∧
      q.bytecount + q.sendEnqueueCount ≤ max q.readerlength q.queue.maxThreshold := by
  have hle := sub32_le (a := max q.readerlength q.queue.maxThreshold) (b := q.bytecount) (by omega)
  have hwrite : ∀ (b : Bool) (w n : Nat), (if (b && decide (n > w)) = true then w else n) ≤ n := by
    intro b w n
    split_ifs with hb
    · rw [Bool.and_eq_true, decide_eq_true_eq] at hb
      omega
    · exact Nat.le_refl n
  unfold sendEnqueueCount
  dsimp only
  generalize sub32 (max q.readerlength q.queue.maxThreshold) q.bytecount = free at hle ⊢
  generalize (if q.maxwritethreshold / q.queue.numChannels = 0 then 1
    else q.maxwritethreshold / q.queue.numChannels) = maxwrite
  have hcount := hwrite (decide (q.maxwritethreshold > 0)) maxwrite q.queue.count
  generalize (if (decide (q.maxwritethreshold > 0) && decide (q.queue.count > maxwrite)) = true then maxwrite
    else q.queue.count) = count at hcount ⊢
  split_ifs <;> omega

theorem beginSendEnqueue_spec {count : Nat} (h : q.toThresholdQueue.Stored e none) (hlt : q.bytecount < q.readerlength)
    (hc : count ≤ q.queue.count) (hm : count ≤ q.queue.maxThreshold) :
    ∃ q' p, q.beginSendEnqueue count = .ok (q', p, (List.range q.queue.numChannels).map q.dequeuePtr) ∧
      q'.frame = { q.frame with indequeue := true } ∧ q'.books = q.books ∧ p.type = .enqueue ∧ p.count = count ∧
      p.dataLength = u32 (count * q.queue.numChannels) := by
  have hwrap : (q.wrapped || decide (max q.readerlength q.queue.maxThreshold < q.bytecount)) = q.wrapped := by
    simp [Nat.le_of_lt hlt]
  obtain ⟨h1, h2, h3⟩ := q.setupPacket_spec (.init (u32 (count * q.queue.numChannels)) .enqueue)
  unfold beginSendEnqueue
  rw [hwrap]
  generalize hr : q.setupPacket (.init (u32 (count * q.queue.numChannels)) .enqueue) = r at h1 h2 h3
  obtain ⟨q1, p1⟩ := r
  have hst := stored_of_frame h h1.frame
  have hq1 : q1.queue = q.queue := congrArg Frame.queue h1.frame
  have hptr : ∀ c, q1.dequeuePtr c = q.dequeuePtr c := by
    intro c
    have ho : q1.oldqueue = q.oldqueue := congrArg Frame.oldqueue h1.frame
    have hu : q1.dequeueUseOld = q.dequeueUseOld := congrArg Frame.dequeueUseOld h1.frame
    simp [ThresholdQueue.dequeuePtr, ThresholdQueue.dequeueQueue, hq1, ho, hu]
  have hptrs : channelPtrs (fun chan => q1.internalGetRawDequeuePtr count chan) "iov.iov_base" q1.queue.numChannels =
      .ok ((List.range q1.queue.numChannels).map q.dequeuePtr) := by
    apply channelPtrs_eq
    intro c _
    rw [← hptr c, hst.internalGetRawDequeuePtr_none, if_neg]
    rw [hq1]
    omega
  refine ⟨{ q1 with indequeue := true }, { p1 with arg := count }, ?_, ?_, h1.books, h2, rfl, h3⟩
  · dsimp only
    rw [hr]
    dsimp only
    rw [hptrs, hq1]
    rfl
  · show { q1.frame with indequeue := true } = _
    rw [show q1.frame = q.frame from h1.frame]

/-- `NotifyFreespace` of a remote queue only wakes threads. -/
theorem notifyFreespace_eq (q : RemoteQueue) : ∃ cond, Queue.notifyFreespace q = { q with cond := cond } := by
  unfold Queue.notifyFreespace
  split_ifs
  · exact ⟨_, rfl⟩
  · exact ⟨q.cond, rfl⟩

theorem notifyData_eq (q : RemoteQueue) : ∃ cond, Queue.notifyData q = { q with cond := cond } := by
  unfold Queue.notifyData
  split_ifs
  · exact ⟨_, rfl⟩
  · exact ⟨q.cond, rfl⟩

/-- `SendEnqueuePacket` has sent the front of the ring. -/
structure SentFront (q : RemoteQueue) (e : Option Nat) (count : Nat) (q' : RemoteQueue) : Prop where
  stored : q'.toThresholdQueue.Stored e none
  enqueue : SameEnqueue q.toThresholdQueue q'.toThresholdQueue
  indequeue : q'.indequeue = false
  mode : q'.mode = q.mode
  writerequest : q'.writerequest = q.writerequest
  shape : SameShape q.queue q'.queue
  count_eq : q'.queue.count = q.queue.count - count
  contents : ∀ c < q.queue.numChannels, q'.queue.contents c = (q.queue.contents c).drop count
  books : q'.books = { q.books with bytecount := u32 (q.bytecount + count) }

theorem endSendEnqueue_spec {count : Nat} (h : q.toThresholdQueue.Stored e (some count)) :
    SentFront q e count (q.endSendEnqueue count) := by
  obtain ⟨base, hb⟩ : ∃ base, base = ({ q.toThresholdQueue with indequeue := false } : ThresholdQueue).internalDequeue
    count := ⟨_, rfl⟩
  obtain ⟨hbase, hcar, hshape, hcount, hptr⟩ := h.internalDequeue
    (show count ≤ (some count).getD 0 from Nat.le_refl _) (b := { q.toQueueBase with indequeue := false }) rfl rfl hb
  obtain ⟨cond, hcond⟩ := notifyFreespace_eq { q with
    toThresholdQueue := base, bytecount := u32 (q.bytecount + count) }
  have heq : q.endSendEnqueue count = { q with
      toThresholdQueue := { base with cond := cond }, bytecount := u32 (q.bytecount + count) } := by
    rw [endSendEnqueue]
    dsimp only
    rw [← hb, hcond]
  rw [heq]
  refine ⟨Carries.stored (hcar.of_eq rfl rfl rfl rfl rfl rfl), ⟨by rw [hbase], by rw [hbase], fun _ c => (hptr c).1,
    fun _ c n => (hptr c).2 n⟩, by rw [hbase], rfl, by rw [hbase], hshape, hcount, ?_, ?_⟩
  · intro c hc
    exact hcar.contents_eq (hshape.numChannels.symm ▸ hc)
  · simp only [RemoteQueue.books, hbase]

/-! ### EnqueuePacket -/

/-- The ring can take the packet, and the enqueue has begun. -/
structure Accepted (q : RemoteQueue) (d : Option Nat) (count : Nat) (q' : RemoteQueue) : Prop where
  stored : q'.toThresholdQueue.Stored (some count) d
  dequeue : SameDequeue q.toThresholdQueue q'.toThresholdQueue
  inenqueue : q'.inenqueue = true
  mode : q'.mode = q.mode
  readrequest : q'.readrequest = q.readrequest
  numChannels : q'.queue.numChannels = q.queue.numChannels
  count_eq : q'.queue.count = q.queue.count
  contents : ∀ c < q.queue.numChannels, q'.queue.contents c = q.queue.contents c
  overrun : ∃ overrun,
    overrun = (decide (count > q.queue.queueLength - q.queue.count) || decide (count > q.queue.maxThreshold)) ∧
    (overrun = false ∧ q'.queue.queueLength = q.queue.queueLength ∧ q'.queue.maxThreshold = q.queue.maxThreshold ∨
      overrun = true ∧
        q'.queue.queueLength = max q.queue.queueLength (max (u32 (q.queue.count + count)) count) ∧
        q'.queue.maxThreshold = max q.queue.maxThreshold count) ∧
    q'.books = { q.books with overrun := q.overrun || overrun }

/-- The pointers for a packet, when the ring has been made large enough for it. -/
private theorem enqueuePtrs_cases {base : ThresholdQueue} (h : base.Stored none d) (count n : Nat) :
    (count ≤ base.queue.freespace ∧ count ≤ base.queue.maxThreshold ∧
      channelPtrs (fun chan => base.internalGetRawEnqueuePtr count chan) "Internal throttle failed!" n =
        .ok ((List.range n).map base.enqueuePtr)) ∨
    (count > base.queue.freespace ∨ count > base.queue.maxThreshold) ∧
      (0 < n → ∃ fault, channelPtrs (fun chan => base.internalGetRawEnqueuePtr count chan) "Internal throttle failed!" n
        = .error fault) := by
  by_cases hc : count > base.queue.freespace ∨ count > base.queue.maxThreshold
  · refine .inr ⟨hc, fun hn => ?_⟩
    induction n with
    | zero => cases hn
    | succ n ih =>
      rw [channelPtrs]
      rcases Nat.eq_zero_or_pos n with rfl | hn
      · rw [channelPtrs, h.internalGetRawEnqueuePtr_none, if_pos hc]
        exact ⟨_, rfl⟩
      · obtain ⟨fault, hf⟩ := ih hn
        rw [hf]
        exact ⟨_, rfl⟩
  · refine .inl ⟨by omega, by omega, channelPtrs_eq fun chan _ => ?_⟩
    rw [h.internalGetRawEnqueuePtr_none, if_neg hc]

private theorem makeRoom_cases (malloc : Malloc) (h : q.toThresholdQueue.Stored none d) (count : Nat) :
    (∃ base, q.makeRoom malloc count = .ok base ∧ base.Carries q.queue.contents none d ∧
      base.toQueueBase = q.toQueueBase ∧ SameDequeue q.toThresholdQueue base ∧
      base.queue.numChannels = q.queue.numChannels ∧ base.queue.count = q.queue.count ∧
      (q.tooLarge count = false ∧ base.queue.queueLength = q.queue.queueLength ∧
          base.queue.maxThreshold = q.queue.maxThreshold ∨
        q.tooLarge count = true ∧
          base.queue.queueLength = max q.queue.queueLength (max (u32 (q.queue.count + count)) count) ∧
          base.queue.maxThreshold = max q.queue.maxThreshold count)) ∨
    q.Stale ∧ ∃ fault, q.makeRoom malloc count = .error fault := by
  unfold makeRoom
  split_ifs with ht
  · rcases h.unlockedGrow_cases malloc (by simp [h.not_inenqueue]) (u32 (q.queue.count + count)) count with
      ⟨base, hok, hc, hg⟩ | ⟨hs, herr⟩
    · refine .inl ⟨base, hok, hc, hg.toQueueBase, ⟨by rw [hg.toQueueBase], by rw [hg.toQueueBase], fun hid =>
        hg.dequeuePtr (h.isSome_of_indequeue hid)⟩, hg.queue.numChannels, hg.queue.count,
        .inr ⟨ht, hg.queue.queueLength, hg.queue.maxThreshold⟩⟩
    · exact .inr ⟨hs, herr⟩
  · exact .inl ⟨q.toThresholdQueue, rfl, h, rfl, ⟨rfl, rfl, fun _ _ => rfl⟩, rfl, rfl,
      .inl ⟨by simpa using ht, rfl, rfl⟩⟩

/-- The ring is large enough now, unless the sum of the counts has wrapped. -/
private theorem wraps_of_lt_freespace {base : ThresholdQueue} {count : Nat}
    (hlt : count > base.queue.freespace ∨ count > base.queue.maxThreshold) (hcount : base.queue.count = q.queue.count)
    (hlen : q.tooLarge count = false ∧ base.queue.queueLength = q.queue.queueLength ∧
        base.queue.maxThreshold = q.queue.maxThreshold ∨
      q.tooLarge count = true ∧
        base.queue.queueLength = max q.queue.queueLength (max (u32 (q.queue.count + count)) count) ∧
        base.queue.maxThreshold = max q.queue.maxThreshold count) : 2 ^ 32 ≤ q.queue.count + count := by
  by_contra hwrap
  have hu : u32 (q.queue.count + count) = q.queue.count + count := u32_of_lt (by omega)
  rw [hu] at hlen
  have hfree : base.queue.freespace = base.queue.queueLength - base.queue.count := rfl
  rcases hlen with ⟨hs, h1, h2⟩ | ⟨-, h1, h2⟩
  · have hfree' : q.queue.freespace = q.queue.queueLength - q.queue.count := rfl
    simp only [tooLarge, Bool.or_eq_false_iff, decide_eq_false_iff_not] at hs
    omega
  · omega

theorem beginEnqueuePacket_cases (malloc : Malloc) (h : q.toThresholdQueue.Stored none d)
    (hn : 0 < q.queue.numChannels) (p : Packet) :
    (∃ q', q.beginEnqueuePacket malloc p = .ok (q', (List.range q.queue.numChannels).map q'.enqueuePtr) ∧
      q.mode = .read ∧ q.writeshutdown = false ∧ Accepted q d p.count q') ∨
    (q.mode ≠ .read ∨ q.writeshutdown = true ∨ q.Stale ∨ 2 ^ 32 ≤ q.queue.count + p.count) ∧
      ∃ fault, q.beginEnqueuePacket malloc p = .error fault := by
  by_cases hm : q.mode = .read
  swap
  · refine .inr ⟨.inl hm, .assert "mode == READ", ?_⟩
    have hm' : decide ((q.updateClock p).mode = .read) = false := decide_eq_false hm
    rw [beginEnqueuePacket]
    dsimp only
    rw [hm']
    rfl
  have hm' : decide ((q.updateClock p).mode = .read) = true := decide_eq_true hm
  by_cases hw : q.writeshutdown = true
  · refine .inr ⟨.inr (.inl hw), .assert "!writeshutdown", ?_⟩
    have hw' : (!(q.updateClock p).writeshutdown) = false := congrArg not hw
    rw [beginEnqueuePacket]
    dsimp only
    rw [hm', hw']
    rfl
  have hw : q.writeshutdown = false := by simpa using hw
  have hw' : (!(q.updateClock p).writeshutdown) = true := congrArg not hw
  rw [beginEnqueuePacket]
  dsimp only
  rw [hm', hw']
  -- making room fails only on a ring that was left behind, and then a pointer is null only if the sum of the lengths wraps
  rcases makeRoom_cases malloc (q := q.updateClock p) (stored_of_frame h rfl) p.count with
    ⟨base, hok, hc, hbase, hsame, hnum, hcount, hlen⟩ | ⟨hs, fault, herr⟩
  · rw [hok]
    rcases enqueuePtrs_cases hc.stored p.count base.queue.numChannels with ⟨hfree, hmax, hptrs⟩ | ⟨hlt, herr⟩
    · refine .inl ⟨{ q.updateClock p with
        toThresholdQueue := { base with inenqueue := true }
        overrun := q.overrun || q.tooLarge p.count }, ?_, hm, hw, ?_⟩
      · show (channelPtrs _ _ base.queue.numChannels >>= _) = _
        rw [hptrs, hnum]
        rfl
      · have hbegin := hc.beginEnqueue hfree hmax (b := { base.toQueueBase with inenqueue := true }) rfl rfl
        exact ⟨hbegin.stored, ⟨hsame.indequeue, hsame.dequeuethresh, hsame.dequeuePtr⟩, rfl, rfl,
          by rw [hbase]; rfl, hnum, hcount,
          fun c hc' => hc.contents_eq (by rw [hnum]; exact hc'), q.tooLarge p.count, rfl, hlen,
          by simp only [RemoteQueue.books, hbase, updateClock]⟩
    · obtain ⟨fault, herr⟩ := herr (hnum.symm ▸ hn)
      refine .inr ⟨.inr (.inr (.inr (wraps_of_lt_freespace hlt hcount hlen))), fault, ?_⟩
      show (channelPtrs _ _ base.queue.numChannels >>= _) = _
      rw [herr]
      rfl
  · refine .inr ⟨.inr (.inr (.inl hs)), fault, ?_⟩
    rw [herr]
    rfl

/-- `EnqueuePacket` has put the packet into the ring. -/
structure Received (q : RemoteQueue) (d : Option Nat) (count : Nat) (q' : RemoteQueue) : Prop where
  stored : q'.toThresholdQueue.Stored none d
  dequeue : SameDequeue q.toThresholdQueue q'.toThresholdQueue
  inenqueue : q'.inenqueue = false
  mode : q'.mode = q.mode
  readrequest : q'.readrequest = q.readrequest
  shape : SameShape q.queue q'.queue
  count_eq : q'.queue.count = q.queue.count + count
  contents : ∀ c < q.queue.numChannels, q'.queue.contents c = q.queue.contents c ++ q.enqueueRegion c count
  books : q'.books = { q.books with bytecount := u32 (q.bytecount + count) }

theorem endEnqueuePacket_spec {count : Nat} (h : q.toThresholdQueue.Stored (some count) d) :
    ∃ q', q.endEnqueuePacket count = .ok q' ∧ Received q d count q' := by
  obtain ⟨base, hok, hbase, hcar, hshape, hcount, hptr⟩ := h.internalEnqueue
    (show count ≤ (some count).getD 0 from Nat.le_refl _) (b := { q.toQueueBase with inenqueue := false }) rfl rfl
  obtain ⟨cond, hcond⟩ := notifyData_eq { q with
    toThresholdQueue := { base with writerequest := 0 }, bytecount := u32 (q.bytecount + count) }
  refine ⟨{ q with
    toThresholdQueue := { base with writerequest := 0, cond := cond }, bytecount := u32 (q.bytecount + count) }, ?_, ?_⟩
  · rw [endEnqueuePacket]
    dsimp only at hok ⊢
    rw [hok]
    exact congrArg Except.ok hcond
  · refine ⟨Carries.stored (hcar.of_eq rfl rfl rfl rfl rfl rfl), ⟨by rw [hbase], by rw [hbase], fun _ => hptr⟩,
      by rw [hbase], rfl, by rw [hbase], hshape, hcount, ?_, ?_⟩
    · intro c hc
      exact hcar.contents_eq (hshape.numChannels.symm ▸ hc)
    · simp only [RemoteQueue.books, hbase]

/-! ### FirePacket -/

/-- What the handler of a packet other than the enqueue packet does. -/
inductive Fired (q : RemoteQueue) (e d : Option Nat) (p : Packet) : Except Fault RemoteQueue → Prop
  | informed {q' : RemoteQueue} : p.type = .readBlock ∨ p.type = .writeBlock ∨ p.type = .d4rTag → Still q q' →
      Fired q e d p (.ok q')
  | ended {q' : RemoteQueue} : (p.type = match q.mode with
        | .read => .endOfWrite
        | .write => .endOfRead) → q.books.peerShutdown = false → q'.frame = q.frame →
      q'.books = { q.books with peerShutdown := true } → Fired q e d p (.ok q')
  | dequeued {q' : RemoteQueue} : p.type = .dequeue → q.mode = .write → q'.frame = q.frame →
      q'.books = { q.books with
        bytecount := sub32 q.bytecount p.count
        wrapped := q.wrapped || decide (q.bytecount < p.count) } → Fired q e d p (.ok q')
  | grew {q' : RemoteQueue} : p.type = .grow → GrewTo q e d p.queueSize p.maxThreshold q.pendingGrow q' →
      Fired q e d p (.ok q')
  | failed {fault : Fault} : q.Stale ∨ ¬p.Expected q.mode q.books.peerShutdown → Fired q e d p (.error fault)

/-- The two assertions at the start of a handler. -/
private theorem ensure_cases {α : Type} (b b' : Bool) (t t' : String) (x : Except Fault α) :
    (b = true ∧ b' = true ∧ (do ensure b t; ensure b' t'; x) = x) ∨
    (b = false ∨ b' = false) ∧ ∃ fault, (do ensure b t; ensure b' t'; x) = .error fault := by
  cases b <;> cases b'
  · exact .inr ⟨.inl rfl, _, rfl⟩
  · exact .inr ⟨.inl rfl, _, rfl⟩
  · exact .inr ⟨.inr rfl, _, rfl⟩
  · exact .inl ⟨rfl, rfl, rfl⟩

/-- A handler fails on a packet that the side does not expect. -/
private theorem not_expected {p : Packet} {m : Mode} (hg : p.type ≠ .grow) (ht : p.type ≠ .d4rTag)
    (hm : q.mode = m → q.books.peerShutdown = true)
    (ho : q.mode ≠ m → ¬match q.mode with
      | .read => p.type = .enqueue ∨ p.type = .writeBlock ∨ p.type = .endOfWrite
      | .write => p.type = .dequeue ∨ p.type = .readBlock ∨ p.type = .endOfRead) :
    ¬p.Expected q.mode q.books.peerShutdown := by
  rintro (h | h | ⟨h, h'⟩)
  · exact hg h
  · exact ht h
  · by_cases hq : q.mode = m
    · rw [hm hq] at h
      cases h
    · exact ho hq h'

/-- The handlers of the packets from the reader. -/
private theorem fired_write {p : Packet} {x : Except Fault RemoteQueue}
    (ht : p.type = .dequeue ∨ p.type = .readBlock ∨ p.type = .endOfRead)
    (hx : q.mode = .write → q.readshutdown = false → Fired q e d p x) :
    Fired q e d p (do
      ensure ((q.updateClock p).mode = .write) "mode == WRITE"
      ensure (!(q.updateClock p).readshutdown) "!readshutdown"
      x) := by
  rcases ensure_cases (decide ((q.updateClock p).mode = .write)) (!(q.updateClock p).readshutdown) "mode == WRITE"
    "!readshutdown" x with ⟨h1, h2, heq⟩ | ⟨hne, fault, heq⟩
  · rw [heq]
    exact hx (of_decide_eq_true h1) ((Bool.not_eq_true' _).mp h2)
  · rw [heq]
    refine .failed (.inr (not_expected (m := .write) ?_ ?_ ?_ ?_))
    · rcases ht with ht | ht | ht <;> simp [ht]
    · rcases ht with ht | ht | ht <;> simp [ht]
    · intro hm
      rw [peerShutdown_write hm]
      rcases hne with hne | hne
      · exact absurd hm (of_decide_eq_false hne)
      · exact (Bool.not_eq_false' _).mp hne
    · intro hm
      cases hq : q.mode with
      | write => exact absurd hq hm
      | read => rcases ht with ht | ht | ht <;> simp [ht]

/-- The handlers of the packets from the writer. -/
private theorem fired_read {p : Packet} {x : Except Fault RemoteQueue}
    (ht : p.type = .writeBlock ∨ p.type = .endOfWrite)
    (hx : q.mode = .read → q.writeshutdown = false → Fired q e d p x) :
    Fired q e d p (do
      ensure ((q.updateClock p).mode = .read) "mode == READ"
      ensure (!(q.updateClock p).writeshutdown) "!writeshutdown"
      x) := by
  rcases ensure_cases (decide ((q.updateClock p).mode = .read)) (!(q.updateClock p).writeshutdown) "mode == READ"
    "!writeshutdown" x with ⟨h1, h2, heq⟩ | ⟨hne, fault, heq⟩
  · rw [heq]
    exact hx (of_decide_eq_true h1) ((Bool.not_eq_true' _).mp h2)
  · rw [heq]
    refine .failed (.inr (not_expected (m := .read) ?_ ?_ ?_ ?_))
    · rcases ht with ht | ht <;> simp [ht]
    · rcases ht with ht | ht <;> simp [ht]
    · intro hm
      rw [peerShutdown_read hm]
      rcases hne with hne | hne
      · exact absurd hm (of_decide_eq_false hne)
      · exact (Bool.not_eq_false' _).mp hne
    · intro hm
      cases hq : q.mode with
      | read => exact absurd hq hm
      | write => rcases ht with ht | ht <;> simp [ht]

theorem firePacket_fired (h : q.toThresholdQueue.Stored e d) (hed : ¬(q.inenqueue = true ∧ q.indequeue = true))
    {p : Packet} (hp : p.type ≠ .enqueue) : Fired q e d p (q.firePacket k p) := by
  unfold firePacket
  cases ht : p.type with
  | enqueue => exact absurd ht hp
  | dequeue =>
    refine fired_write (.inl ht) fun hm _ => .dequeued ht hm ?_ rfl
    simp only [RemoteQueue.frame, updateClock, hm]
  | readBlock =>
    refine fired_write (.inr (.inl ht)) fun hm _ => .informed (.inl ht) ⟨?_, rfl⟩
    simp only [RemoteQueue.frame, updateClock, hm]
  | writeBlock =>
    refine fired_read (.inl ht) fun hm _ => .informed (.inr (.inl ht)) ⟨?_, rfl⟩
    simp only [RemoteQueue.frame, updateClock, hm]
  | endOfWrite =>
    refine fired_read (.inr ht) fun hm hw => .ended (by rw [ht, hm]) ((peerShutdown_read hm).trans hw) rfl ?_
    change { q.books with peerShutdown := match q.mode with
      | .read => true
      | .write => q.readshutdown } = _
    rw [hm]
  | endOfRead =>
    refine fired_write (.inr (.inr ht)) fun hm hw => .ended (by rw [ht, hm]) ((peerShutdown_write hm).trans hw) rfl ?_
    change { q.books with peerShutdown := match q.mode with
      | .read => q.writeshutdown
      | .write => true } = _
    rw [hm]
  | grow =>
    rcases growTo_cases k.malloc (q := q.updateClock p) (stored_of_frame h rfl) hed p.queueSize p.maxThreshold with
      ⟨q', hok, hg⟩ | ⟨hs, fault, herr⟩
    · show Fired q e d p ((q.updateClock p).growTo k.malloc p.queueSize p.maxThreshold)
      rw [hok]
      exact .grew ht ⟨hg.stored, hg.enqueue, hg.dequeue, hg.mode, hg.numChannels, hg.count, hg.readrequest,
        hg.writerequest, hg.books, hg.length, hg.maxThreshold, hg.contents⟩
    · show Fired q e d p ((q.updateClock p).growTo k.malloc p.queueSize p.maxThreshold)
      rw [herr]
      exact .failed (.inl hs)
  | d4rTag => exact .informed (.inr (.inr ht)) ⟨rfl, rfl⟩
  | idReader => exact .failed (.inr (by cases hm : q.mode <;> simp [Packet.Expected, ht]))
  | idWriter => exact .failed (.inr (by cases hm : q.mode <;> simp [Packet.Expected, ht]))

end RemoteQueue

end ProcessNetwork
