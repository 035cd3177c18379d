import ProcessNetwork.RemoteMethods

/-!
# The invariant of one side of a remote queue

The node uses the queue from one end and the action thread from the other: at the side of the writer the node enqueues
and the action thread dequeues while it sends a packet, and at the side of the reader it is the other way round.
`SideSound` says that the queue carries what is outstanding for the two of them, that the pointers of both are pointers
of their operations, and what holds at each program counter.

The steps that are the same on both sides are treated here.  Each of them keeps the invariant and is a step of the
protocol (`EndpointStep`).
-/

namespace ProcessNetwork

open ThresholdQueue (Carries SameEnqueue SameDequeue Stale)
open RemoteQueue (Still GrewTo)

namespace RemoteQueue

variable (q : RemoteQueue)

/-! ### The operation of the node and that of the action thread -/

def nodeIn : Bool :=
  match q.mode with
  | .read => q.indequeue
  | .write => q.inenqueue

def actionIn : Bool :=
  match q.mode with
  | .read => q.inenqueue
  | .write => q.indequeue

def nodeThresh : Nat :=
  match q.mode with
  | .read => q.dequeuethresh
  | .write => q.enqueuethresh

def nodeUseOld : Bool :=
  match q.mode with
  | .read => q.dequeueUseOld
  | .write => q.enqueueUseOld

def nodeRequest : Nat :=
  match q.mode with
  | .read => q.readrequest
  | .write => q.writerequest

def nodePtr (c : Nat) : Ptr :=
  match q.mode with
  | .read => q.dequeuePtr c
  | .write => q.enqueuePtr c

def actionPtr (c : Nat) : Ptr :=
  match q.mode with
  | .read => q.enqueuePtr c
  | .write => q.dequeuePtr c

/-- What is open for the node: its outstanding operation, or what an operation that threw has left behind. -/
def nodeOpen : Option Nat := if q.nodeIn then some q.nodeThresh else if q.nodeUseOld then some 0 else none

end RemoteQueue

/-- What holds in the loop of `GetRawDequeuePtr` or `GetRawEnqueuePtr`. -/
def Asking (q : RemoteQueue) (thresh : Nat) : Prop :=
  if q.nodeIn then thresh ≤ q.nodeThresh else q.nodeThresh = thresh

/-- What holds while the node waits in `WaitForData` or `WaitForFreespace`. -/
structure Waiting (k : KernelBase) (q : RemoteQueue) (t c : Nat) : Prop where
  chan : c < q.queue.numChannels
  thresh : t < 2 ^ 32
  nodeIn : q.nodeIn = false
  nodeThresh : q.nodeThresh = t
  nodeRequest : q.nodeRequest = t
  maxThreshold : k.growQueueMaxThreshold = true → t ≤ q.queue.maxThreshold

/-- What holds while the node is at `pc`. -/
def NodeAt (k : KernelBase) (q : RemoteQueue) : NodePc → Prop
  | .idle => True
  | .loop t c _ => c < q.queue.numChannels ∧ t < 2 ^ 32 ∧ Asking q t
  | .waitRemote t c _ _ => Waiting k q t c
  | .waitLocal t c _ => Waiting k q t c
  | .growing len mt after => len < 2 ^ 32 ∧ mt < 2 ^ 32 ∧ q.nodeIn = false ∧ NodeAt k q after

/-- What holds while the enqueue packet `p` is being sent or received. -/
structure InPacket (q : RemoteQueue) (p : Packet) (ptrs : List Ptr) (n : Nat) : Prop where
  type : p.type = .enqueue
  count : 0 < p.count
  dataLength : p.dataLength = u32 (p.count * q.queue.numChannels)
  ptrs : ptrs = (List.range q.queue.numChannels).map q.actionPtr
  done : n ≤ p.dataLength

/-- The bytes of a packet are bytes of the channels. -/
theorem InPacket.chan_lt {q : RemoteQueue} {p : Packet} {ptrs : List Ptr} {n m : Nat} (h : InPacket q p ptrs n)
    (hm : m < p.dataLength) : m / p.count < q.queue.numChannels := by
  have hle : u32 (p.count * q.queue.numChannels) ≤ p.count * q.queue.numChannels := Nat.mod_le _ _
  rw [h.dataLength] at hm
  exact Nat.div_lt_of_lt_mul (hm.trans_le hle)

/-- What holds while the action thread is at `pc`. -/
def ActionAt (q : RemoteQueue) : ActionPc → Prop
  | .receiving p ptrs n => q.mode = .read ∧ InPacket q p ptrs n
  | .sendLoop => q.mode = .write ∧ q.sentEnd = false
  | .sending p ptrs n => q.mode = .write ∧ q.sentEnd = false ∧ InPacket q p ptrs n
  | _ => True

namespace Side

variable (s : Side)

def packetCount : Option Nat := s.packet.map fun p => p.1.count

def outEnqueue : Option Nat :=
  match s.q.mode with
  | .read => s.packetCount
  | .write => s.q.nodeOpen

def outDequeue : Option Nat :=
  match s.q.mode with
  | .read => s.q.nodeOpen
  | .write => s.packetCount

end Side

structure SideSound (k : KernelBase) (s : Side) : Prop where
  stored : s.q.toThresholdQueue.Stored s.outEnqueue s.outDequeue
  numChannels : 0 < s.q.queue.numChannels
  bytecount : s.q.bytecount < 2 ^ 32
  actionIn : s.q.actionIn = s.packet.isSome
  node : NodeAt k s.q s.node
  action : ActionAt s.q s.action
  ptrs : ∀ p ∈ s.ptrs, s.q.nodeIn = true ∧ p.chan < s.q.queue.numChannels ∧ p.thresh ≤ s.q.nodeThresh ∧
    p.ptr = s.q.nodePtr p.chan
  written : ∀ c j b, s.written c j = some b → s.q.mode = .write ∧ s.q.inenqueue = true ∧
    (s.q.enqueueRegion c s.q.enqueuethresh)[j]? = some b

variable {s : Side} {q q' : RemoteQueue} {k : KernelBase}

/-- `q'` carries the same as the queue of `s`, for the same outstanding operations. -/
structure Preserved (s : Side) (q' : RemoteQueue) : Prop where
  stored : q'.toThresholdQueue.Stored s.outEnqueue s.outDequeue
  enqueue : SameEnqueue s.q.toThresholdQueue q'.toThresholdQueue
  dequeue : SameDequeue s.q.toThresholdQueue q'.toThresholdQueue
  mode : q'.mode = s.q.mode
  numChannels : q'.queue.numChannels = s.q.queue.numChannels
  maxThreshold : s.q.queue.maxThreshold ≤ q'.queue.maxThreshold

/-- Neither the books nor the frame change, except for the request of the node. -/
structure Calm (q q' : RemoteQueue) : Prop where
  frame : ∃ r, q'.frame = { q.frame with request := r }
  books : q'.books = q.books

theorem Calm.of_still (h : Still q q') : Calm q q' := ⟨⟨q.frame.request, h.frame⟩, h.books⟩

private theorem Calm.trans {q2 : RemoteQueue} (h : Calm q q') (h' : Calm q' q2) : Calm q q2 := by
  obtain ⟨⟨r, hr⟩, hb⟩ := h
  obtain ⟨⟨r', hr'⟩, hb'⟩ := h'
  exact ⟨⟨r', by rw [hr', hr]⟩, hb'.trans hb⟩

/-- Nothing that the queue carries depends on has changed. -/
theorem Preserved.of_frame (h : SideSound k s) (hf : ∃ r, q'.frame = { s.q.frame with request := r }) :
    Preserved s q' := by
  obtain ⟨r, hf⟩ := hf
  simp only [RemoteQueue.frame, Frame.mk.injEq] at hf
  obtain ⟨hm, h1, h2, h3, h4, h5, h6, h7, h8, -⟩ := hf
  refine ⟨?_, ⟨h5, h7, ?_, ?_⟩, ⟨h6, h8, ?_⟩, hm, by rw [h1], by rw [h1]⟩
  · have hst : q'.toThresholdQueue.Carries _ _ _ := h.stored.of_eq h1 h2 h3 h4 h5 h6
    rwa [← h1] at hst
  · intro _ c
    simp [ThresholdQueue.enqueuePtr, ThresholdQueue.enqueueQueue, h1, h2, h3]
  · intro _ c n
    simp [ThresholdQueue.enqueueRegion, ThresholdQueue.enqueueQueue, h1, h2, h3]
  · intro _ c
    simp [ThresholdQueue.dequeuePtr, ThresholdQueue.dequeueQueue, h1, h2, h4]

private theorem Preserved.of_grew {len mt : Nat} {b : Bool} (h : GrewTo s.q s.outEnqueue s.outDequeue len mt b q') :
    Preserved s q' :=
  ⟨h.stored, h.enqueue, h.dequeue, h.mode, h.numChannels, by rw [h.maxThreshold]; exact Nat.le_max_left _ _⟩

namespace Preserved

theorem nodeIn (h : Preserved s q') : q'.nodeIn = s.q.nodeIn := by
  unfold RemoteQueue.nodeIn
  rw [h.mode]
  cases s.q.mode with
  | read => exact h.dequeue.indequeue
  | write => exact h.enqueue.inenqueue

theorem actionIn (h : Preserved s q') : q'.actionIn = s.q.actionIn := by
  unfold RemoteQueue.actionIn
  rw [h.mode]
  cases s.q.mode with
  | read => exact h.enqueue.inenqueue
  | write => exact h.dequeue.indequeue

private theorem nodeThresh (h : Preserved s q') : q'.nodeThresh = s.q.nodeThresh := by
  unfold RemoteQueue.nodeThresh
  rw [h.mode]
  cases s.q.mode with
  | read => exact h.dequeue.dequeuethresh
  | write => exact h.enqueue.enqueuethresh

private theorem nodePtr (h : Preserved s q') (hin : s.q.nodeIn = true) (c : Nat) : q'.nodePtr c = s.q.nodePtr c := by
  unfold RemoteQueue.nodePtr
  unfold RemoteQueue.nodeIn at hin
  rw [h.mode]
  cases hm : s.q.mode with
  | read =>
    rw [hm] at hin
    exact h.dequeue.dequeuePtr hin c
  | write =>
    rw [hm] at hin
    exact h.enqueue.enqueuePtr hin c

private theorem actionPtr (h : Preserved s q') (hin : s.q.actionIn = true) (c : Nat) : q'.actionPtr c = s.q.actionPtr c := by
  unfold RemoteQueue.actionPtr
  unfold RemoteQueue.actionIn at hin
  rw [h.mode]
  cases hm : s.q.mode with
  | read =>
    rw [hm] at hin
    exact h.enqueue.enqueuePtr hin c
  | write =>
    rw [hm] at hin
    exact h.dequeue.dequeuePtr hin c

end Preserved

/-- The old ring is kept for the node exactly while something is open for it. -/
theorem nodeUseOld_eq {s : Side} (h : q.toThresholdQueue.Stored s.outEnqueue s.outDequeue) (hm : q.mode = s.q.mode)
    (hin : q.nodeIn = false) : q.nodeUseOld = s.q.nodeOpen.isSome := by
  unfold RemoteQueue.nodeIn at hin
  unfold RemoteQueue.nodeUseOld
  unfold Side.outEnqueue Side.outDequeue at h
  rw [hm] at hin ⊢
  cases hs : s.q.mode with
  | read =>
    rw [hs] at hin h
    exact h.dequeueUseOld_eq hin
  | write =>
    rw [hs] at hin h
    exact h.enqueueUseOld_eq hin

private theorem Preserved.nodeUseOld (h : SideSound k s) (hp : Preserved s q') (hin : s.q.nodeIn = false) :
    q'.nodeUseOld = s.q.nodeUseOld := by
  rw [nodeUseOld_eq hp.stored hp.mode (hp.nodeIn.trans hin), nodeUseOld_eq h.stored rfl hin]

private theorem Preserved.nodeOpen (h : SideSound k s) (hp : Preserved s q') : q'.nodeOpen = s.q.nodeOpen := by
  unfold RemoteQueue.nodeOpen
  rw [hp.nodeIn, hp.nodeThresh]
  by_cases hin : s.q.nodeIn = true
  · rw [if_pos hin, if_pos hin]
  · rw [if_neg hin, if_neg hin, hp.nodeUseOld h (by simpa using hin)]

theorem NodeAt.congr {pc : NodePc} (h : NodeAt k q pc) (h1 : q'.queue.numChannels = q.queue.numChannels)
    (h2 : q'.nodeIn = q.nodeIn) (h3 : q'.nodeThresh = q.nodeThresh) (h4 : q'.nodeRequest = q.nodeRequest)
    (h5 : q.queue.maxThreshold ≤ q'.queue.maxThreshold) : NodeAt k q' pc := by
  have hwait : ∀ t c, Waiting k q t c → Waiting k q' t c := by
    intro t c hw
    exact ⟨h1.symm ▸ hw.chan, hw.thresh, h2.trans hw.nodeIn, h3.trans hw.nodeThresh, h4.trans hw.nodeRequest,
      fun hk => (hw.maxThreshold hk).trans h5⟩
  induction pc with
  | idle => trivial
  | loop t c grown => simpa only [NodeAt, Asking, h1, h2, h3] using h
  | waitRemote t c grown n => exact hwait t c h
  | waitLocal t c grown => exact hwait t c h
  | growing len mt after ih => exact ⟨h.1, h.2.1, h2.trans h.2.2.1, ih h.2.2.2⟩

theorem Preserved.nodeAt {pc : NodePc} (hp : Preserved s q') (hr : q'.nodeRequest = s.q.nodeRequest)
    (h : NodeAt k s.q pc) : NodeAt k q' pc :=
  h.congr hp.numChannels hp.nodeIn hp.nodeThresh hr hp.maxThreshold

theorem nodeRequest_of_frame (h : q'.frame = q.frame) : q'.nodeRequest = q.nodeRequest := congrArg Frame.request h

private theorem nodeRequest_of_grew {e d : Option Nat} {len mt : Nat} {b : Bool} (h : GrewTo q e d len mt b q') :
    q'.nodeRequest = q.nodeRequest := by
  unfold RemoteQueue.nodeRequest
  rw [h.mode, h.readrequest, h.writerequest]

private theorem Preserved.inPacket {p : Packet} {ptrs : List Ptr} {n : Nat} (hp : Preserved s q') (hin : s.q.actionIn = true)
    (h : InPacket s.q p ptrs n) : InPacket q' p ptrs n := by
  refine ⟨h.type, h.count, hp.numChannels.symm ▸ h.dataLength, ?_, h.done⟩
  rw [h.ptrs, hp.numChannels]
  exact List.map_congr_left fun c _ => (hp.actionPtr hin c).symm

theorem ActionAt.congr {pc : ActionPc} (h : ActionAt q pc) (hm : q'.mode = q.mode) (hsent : q'.sentEnd = q.sentEnd)
    (hq : q'.queue.numChannels = q.queue.numChannels) (hptr : ∀ c, q'.actionPtr c = q.actionPtr c) : ActionAt q' pc := by
  have hpacket : ∀ p ptrs n, InPacket q p ptrs n → InPacket q' p ptrs n := by
    intro p ptrs n hi
    refine ⟨hi.type, hi.count, hq.symm ▸ hi.dataLength, ?_, hi.done⟩
    rw [hi.ptrs, hq]
    exact List.map_congr_left fun c _ => (hptr c).symm
  cases pc with
  | receiving p ptrs n => exact ⟨hm.trans h.1, hpacket p ptrs n h.2⟩
  | sendLoop => exact ⟨hm.trans h.1, hsent.trans h.2⟩
  | sending p ptrs n => exact ⟨hm.trans h.1, hsent.trans h.2.1, hpacket p ptrs n h.2.2⟩
  | _ => trivial

/-- The action thread is where it was. -/
theorem Preserved.actionAt (h : SideSound k s) (hp : Preserved s q') (hsent : q'.sentEnd = s.q.sentEnd) :
    ActionAt q' s.action := by
  have hat := h.action
  have hin := h.actionIn
  unfold Side.packet at hin
  cases ha : s.action with
  | receiving p ptrs n =>
    rw [ha] at hat hin
    exact ⟨hp.mode.trans hat.1, hp.inPacket hin hat.2⟩
  | sendLoop =>
    rw [ha] at hat
    exact ⟨hp.mode.trans hat.1, hsent.trans hat.2⟩
  | sending p ptrs n =>
    rw [ha] at hat hin
    exact ⟨hp.mode.trans hat.1, hsent.trans hat.2.1, hp.inPacket hin hat.2.2⟩
  | _ => trivial

namespace SideSound

/-- The queue may be replaced by one that carries the same. -/
theorem keep (h : SideSound k s) (hp : Preserved s q') {node : NodePc} {action : ActionPc}
    (hbytes : q'.bytecount < 2 ^ 32) (hnode : NodeAt k q' node)
    (haction : ActionAt q' action) (hpacket : ({ s with q := q', node := node, action := action } : Side).packet =
      s.packet) : SideSound k { s with q := q', node := node, action := action } := by
  have hopen := hp.nodeOpen h
  have hcount : ({ s with q := q', node := node, action := action } : Side).packetCount = s.packetCount := by
    rw [Side.packetCount, hpacket, Side.packetCount]
  refine ⟨?_, ?_, hbytes, ?_, hnode, haction, ?_, ?_⟩
  · have hst := hp.stored
    unfold Side.outEnqueue Side.outDequeue at hst ⊢
    rw [hcount]
    dsimp only
    rw [hp.mode, hopen]
    exact hst
  · exact hp.numChannels.symm ▸ h.numChannels
  · exact hp.actionIn.trans (h.actionIn.trans (by rw [hpacket]))
  · intro p hmem
    obtain ⟨h1, h2, h3, h4⟩ := h.ptrs p hmem
    exact ⟨hp.nodeIn.trans h1, hp.numChannels.symm ▸ h2, hp.nodeThresh.symm ▸ h3, h4.trans (hp.nodePtr h1 _).symm⟩
  · intro c j b hb
    obtain ⟨h1, h2, h3⟩ := h.written c j b hb
    refine ⟨hp.mode.trans h1, hp.enqueue.inenqueue.trans h2, ?_⟩
    show (q'.enqueueRegion c q'.enqueuethresh)[j]? = some b
    rw [hp.enqueue.enqueueRegion h2, hp.enqueue.enqueuethresh]
    exact h3

private theorem fail (h : SideSound k s) (fault : Fault) : SideSound k (s.fail fault) :=
  ⟨h.stored, h.numChannels, h.bytecount, h.actionIn, h.node, h.action, h.ptrs, h.written⟩

/-- The action thread stays where it is, or it is outside the two halves of a packet before and after. -/
def SamePacket (s : Side) (action : ActionPc) : Prop :=
  action = s.action ∨ s.packet = none ∧ ({ s with action := action } : Side).packet = none

private theorem SamePacket.packet_eq {action : ActionPc} {node : NodePc} (h : SamePacket s action) :
    ({ s with q := q', node := node, action := action } : Side).packet = s.packet := by
  rcases h with rfl | ⟨h1, h2⟩
  · rfl
  · exact h2.trans h1.symm

theorem arrived_eq_nil (h : s.packet = none) (c : Nat) : s.arrived c = [] := by
  unfold Side.packet at h
  unfold Side.arrived
  split <;> simp_all

private theorem SamePacket.arrived_eq {action : ActionPc} {node : NodePc} (h : SideSound k s) (hp : Preserved s q')
    (ha : SamePacket s action) (c : Nat) :
    ({ s with q := q', node := node, action := action } : Side).arrived c = s.arrived c := by
  rcases ha with rfl | ⟨h1, h2⟩
  · have hat := h.action
    have hin := h.actionIn
    unfold Side.packet at hin
    unfold Side.arrived
    dsimp only
    cases ha : s.action with
    | receiving p ptrs n =>
      rw [ha] at hat hin
      rw [RemoteQueue.actionIn, hat.1] at hin
      dsimp only
      rw [hp.enqueue.enqueueRegion hin]
    | _ => rfl
  · rw [arrived_eq_nil h1, arrived_eq_nil]
    exact h2

private theorem stale_eq (h : SideSound k s) (hp : Preserved s q') {action : ActionPc} {node : NodePc} :
    ({ s with q := q', node := node, action := action } : Side).stale = s.stale := by
  have hs : ∀ s : Side, s.stale = (!s.q.nodeIn && s.q.nodeUseOld) := by
    intro s
    unfold Side.stale RemoteQueue.nodeIn RemoteQueue.nodeUseOld
    cases s.q.mode <;> rfl
  rw [hs, hs]
  dsimp only
  rw [hp.nodeIn]
  by_cases hin : s.q.nodeIn = true
  · rw [hin]
    rfl
  · rw [hp.nodeUseOld h (by simpa using hin)]

end SideSound

theorem Side.onChannels_congr {t : Side} {f g : Nat → List Byte}
    (hnum : t.q.queue.numChannels = s.q.queue.numChannels) (h : ∀ c < s.q.queue.numChannels, f c = g c) :
    t.onChannels f = s.onChannels g := by
  funext c
  unfold Side.onChannels
  rw [hnum]
  split_ifs with hc
  · exact h c hc
  · rfl

theorem Side.onChannels_append (s : Side) (f g : Nat → List Byte) :
    s.onChannels (fun c => f c ++ g c) = fun c => s.onChannels f c ++ s.onChannels g c := by
  funext c
  unfold Side.onChannels
  split_ifs
  · rfl
  · rfl

theorem Side.onChannels_drop (s : Side) (f : Nat → List Byte) (n : Nat) :
    s.onChannels (fun c => (f c).drop n) = fun c => (s.onChannels f c).drop n := by
  funext c
  unfold Side.onChannels
  split_ifs
  · rfl
  · rw [List.drop_nil]

theorem Side.onChannels_take (s : Side) (f : Nat → List Byte) (n : Nat) :
    s.onChannels (fun c => (f c).take n) = fun c => (s.onChannels f c).take n := by
  funext c
  unfold Side.onChannels
  split_ifs
  · rfl
  · rw [List.take_nil]

namespace SideSound

/-- What the protocol sees of a side whose queue is replaced by one that carries the same. -/
theorem endpoint_keep (h : SideSound k s) (hp : Preserved s q') (node : NodePc) {action : ActionPc}
    (ha : SamePacket s action) (hcount : q'.queue.count = s.q.queue.count)
    (hcontents : ∀ c < s.q.queue.numChannels, q'.queue.contents c = s.q.queue.contents c) :
    ({ s with q := q', node := node, action := action } : Side).endpoint =
      { s.endpoint with
        toBooks := q'.books
        length := q'.queue.queueLength
        maxThreshold := q'.queue.maxThreshold } := by
  have hon := fun f g => Side.onChannels_congr (s := s) (t := { s with q := q', node := node, action := action })
    (f := f) (g := g) hp.numChannels
  unfold Side.endpoint
  rw [stale_eq h hp, ha.packet_eq, hon _ _ fun c _ => ha.arrived_eq h hp c, hon _ _ hcontents, hon _ _ fun _ _ => rfl]
  dsimp only
  rw [hp.numChannels, hcount]

end SideSound

/-- What the protocol sees, by its parts. -/
theorem endpoint_of {s' : Side} {v : Endpoint} (hb : s'.q.books = v.toBooks) (hlen : s'.q.queue.queueLength = v.length)
    (hmt : s'.q.queue.maxThreshold = v.maxThreshold) (hnum : s'.q.queue.numChannels = v.numChannels)
    (hcount : s'.q.queue.count = v.count) (hst : s'.onChannels s'.q.queue.contents = v.stored)
    (hh : s'.onChannels s'.history = v.history) (hp : s'.packet = v.packet)
    (ha : s'.onChannels s'.arrived = v.arrived) (hs : s'.stale = v.stale) (hf : s'.failed.isSome = v.failed) :
    s'.endpoint = v := by
  rw [Side.endpoint, hb, hlen, hmt, hnum, hcount, hst, hh, hp, ha, hs, hf]

/-- A side whose ring, books and packet are the same looks the same. -/
theorem endpoint_eq {s' : Side} (hb : s'.q.books = s.q.books) (hq : s'.q.queue = s.q.queue)
    (hh : s'.history = s.history) (hp : s'.packet = s.packet) (ha : ∀ c, s'.arrived c = s.arrived c)
    (hs : s'.stale = s.stale) (hf : s'.failed = s.failed) : s'.endpoint = s.endpoint := by
  unfold Side.endpoint Side.onChannels
  simp only [hb, hq, hh, hp, ha, hs, hf]

/-! ### Steps of a side as steps of the protocol -/

/-- The step leads to a side that is sound, and the protocol takes the same step. -/
structure Simulated (k : KernelBase) (s : Side) (inbox : Wire) (peerEnded : Bool) (act : SideAct) (r : SideStep) : Prop where
  sound : SideSound k r.side
  step : EndpointStep s.endpoint inbox peerEnded (s.growth k act) (s.abandons act) s.q.mode act r.side.endpoint r.rest
    r.sent
  mode : r.side.q.mode = s.q.mode

namespace SideSound

variable {inbox : Wire} {peerEnded : Bool} {act : SideAct}

private theorem endpoint_calm (h : SideSound k s) (node : NodePc) {action : ActionPc} (hs : Calm s.q q')
    (ha : SamePacket s action) : ({ s with q := q', node := node, action := action } : Side).endpoint = s.endpoint := by
  obtain ⟨r, hf⟩ := hs.frame
  have hq : q'.queue = s.q.queue := congrArg Frame.queue hf
  rw [endpoint_keep h (.of_frame h hs.frame) node ha (by rw [hq]) (by simp [hq]), hs.books, hq]
  rfl

/-- A step that changes nothing the protocol sees. -/
theorem calm (h : SideSound k s) {node : NodePc} {action : ActionPc} (hs : Calm s.q q') (hnode : NodeAt k q' node)
    (ha : SamePacket s action) (haction : ActionAt q' action) :
    Simulated k s inbox peerEnded act ⟨{ s with q := q', node := node, action := action }, inbox, []⟩ := by
  refine ⟨h.keep (.of_frame h hs.frame) ?_ hnode haction ha.packet_eq, ?_, (Preserved.of_frame h hs.frame).mode⟩
  · rw [show q'.bytecount = s.q.bytecount from congrArg Books.bytecount hs.books]
    exact h.bytecount
  · rw [endpoint_calm h node hs ha]
    exact .quiet

/-- The node does something that the protocol does not see. -/
theorem calmNode (h : SideSound k s) {node : NodePc} (hs : Calm s.q q') (hnode : NodeAt k q' node) :
    Simulated k s inbox peerEnded act ⟨{ s with q := q', node := node }, inbox, []⟩ :=
  h.calm hs hnode (.inl rfl) (Preserved.actionAt h (.of_frame h hs.frame) (congrArg Books.sentEnd hs.books))

/-- The action thread does something that the protocol does not see. -/
theorem stillAction (h : SideSound k s) {action : ActionPc} (hs : Still s.q q') (ha : SamePacket s action)
    (haction : ActionAt q' action) : Simulated k s inbox peerEnded act ⟨{ s with q := q', action := action }, inbox, []⟩ :=
  h.calm (.of_still hs) ((Preserved.of_frame h (Calm.of_still hs).frame).nodeAt (nodeRequest_of_frame hs.frame) h.node) ha
    haction

theorem still (h : SideSound k s) (hs : Still s.q q') :
    Simulated k s inbox peerEnded act ⟨{ s with q := q' }, inbox, []⟩ :=
  h.calmNode (.of_still hs)
    ((Preserved.of_frame h (Calm.of_still hs).frame).nodeAt (nodeRequest_of_frame hs.frame) h.node)

/-- An assertion fails. -/
theorem fails (h : SideSound k s) (fault : Fault) (hf : s.endpoint.Faulty s.q.mode inbox) :
    Simulated k s inbox peerEnded act ⟨s.fail fault, inbox, []⟩ :=
  ⟨h.fail fault, .fails hf, rfl⟩

/-- What an operation that threw has left behind is always that of the node. -/
theorem stale_of_stale (h : SideSound k s) (hs : s.q.Stale) : s.stale = true := by
  have hst := h.stored
  have hin := h.actionIn
  have hnone : s.packet.isSome = false → s.packetCount = none := by
    intro hp
    have hp : s.packet = none := by simpa using hp
    rw [Side.packetCount, hp]
    rfl
  unfold Side.outEnqueue Side.outDequeue at hst
  unfold RemoteQueue.actionIn at hin
  unfold Side.stale
  cases hm : s.q.mode with
  | read =>
    rw [hm] at hst hin
    rcases hs with ⟨h1, h2⟩ | ⟨h1, h2⟩
    · rw [hnone (hin.symm.trans h1)] at hst
      rw [hst.not_useOld_enqueue] at h2
      cases h2
    · simp [h1, h2]
  | write =>
    rw [hm] at hst hin
    rcases hs with ⟨h1, h2⟩ | ⟨h1, h2⟩
    · simp [h1, h2]
    · rw [hnone (hin.symm.trans h1)] at hst
      rw [hst.not_useOld_dequeue] at h2
      cases h2

/-- A growth. -/
theorem grows (h : SideSound k s) {node : NodePc} {len mt : Nat} (hgr : s.growth k act = some (len, mt))
    (hlen : len < 2 ^ 32) (hmt : mt < 2 ^ 32) (hg : GrewTo s.q s.outEnqueue s.outDequeue len mt true q')
      (hnode : NodeAt k s.q node) :
    Simulated k s inbox peerEnded act ⟨{ s with q := q', node := node }, inbox, []⟩ := by
  have hp := Preserved.of_grew hg
  have hend := endpoint_keep h hp node (.inl rfl) hg.count hg.contents
  refine ⟨h.keep hp ?_ (hp.nodeAt (nodeRequest_of_grew hg) hnode)
    (hp.actionAt h (congrArg Books.sentEnd hg.books)) rfl, ?_, hg.mode⟩
  · rw [show q'.bytecount = s.q.bytecount from congrArg Books.bytecount hg.books]
    exact h.bytecount
  · rw [hend, hg.books, hg.length, hg.maxThreshold]
    exact .grows hgr hlen hmt

/-- The two operations are not both outstanding while that of the node is not. -/
theorem not_both (hin : s.q.nodeIn = false) : ¬(s.q.inenqueue = true ∧ s.q.indequeue = true) := by
  unfold RemoteQueue.nodeIn at hin
  cases hm : s.q.mode <;> rw [hm] at hin <;> simp [hin]

theorem nodeGrow (h : SideSound k s) {len mt : Nat} {after : NodePc} (hact : s.growth k act = s.q.growth len mt)
    (hin : s.q.nodeIn = false) (hlen : len < 2 ^ 32) (hmt : mt < 2 ^ 32) (hafter : NodeAt k s.q after) :
    Simulated k s inbox peerEnded act ⟨s.nodeGrow k len mt after, inbox, []⟩ := by
  unfold Side.nodeGrow
  rcases RemoteQueue.unlockedGrow_cases (k := k) h.stored (not_both hin) len mt with
    ⟨q', hok | hok, hs⟩ | ⟨q', hok, hgr, hg⟩ | ⟨hs, fault, herr⟩
  · rw [hok]
    have hp := Preserved.of_frame h (Calm.of_still hs).frame
    exact h.calmNode (.of_still hs) (hp.nodeAt (nodeRequest_of_frame hs.frame) hafter)
  · rw [hok]
    have hp := Preserved.of_frame h (Calm.of_still hs).frame
    have hgrowing : NodeAt k s.q (.growing len mt after) := ⟨hlen, hmt, hin, hafter⟩
    exact h.calmNode (.of_still hs) (hp.nodeAt (nodeRequest_of_frame hs.frame) hgrowing)
  · rw [hok]
    exact h.grows (hact.trans hgr) hlen hmt hg hafter
  · rw [herr]
    exact h.fails fault (.inl (h.stale_of_stale hs))

private theorem resumeGrow (h : SideSound k s) {len mt : Nat} {after : NodePc} (hn : s.node = .growing len mt after) :
    Simulated k s inbox peerEnded .wakes ⟨s.resumeGrow k len mt after, inbox, []⟩ := by
  have hat := h.node
  rw [hn] at hat
  obtain ⟨hlen, hmt, hin, hafter⟩ := hat
  unfold Side.resumeGrow
  split_ifs with hpend
  · exact h.still (RemoteQueue.still_signal s.q)
  · rcases RemoteQueue.finishGrow_cases k.malloc h.stored (not_both hin) len mt with ⟨q', hok, hg⟩ | ⟨hs, fault, herr⟩
    · have hgr : s.growth k .wakes = some (len, mt) := by
        rw [Side.growth, hn]
        exact if_neg hpend
      rw [hok]
      exact h.grows hgr hlen hmt hg hafter
    · rw [herr]
      exact h.fails fault (.inl (h.stale_of_stale hs))

/-! ### Waiting -/

/-- Back to the loop after a wait. -/
theorem asking_of_waiting {t c : Nat} (h : Waiting k s.q t c) : Asking (Side.clearRequest s.q) t := by
  unfold Asking Side.clearRequest
  have hin := h.nodeIn
  have ht := h.nodeThresh
  unfold RemoteQueue.nodeIn at hin
  unfold RemoteQueue.nodeThresh at ht
  cases hm : s.q.mode <;> rw [hm] at hin ht <;> simp [RemoteQueue.nodeIn, RemoteQueue.nodeThresh, hin, ht]

private theorem calm_clearRequest (q : RemoteQueue) : Calm q (Side.clearRequest q) := by
  unfold Side.clearRequest
  cases hm : q.mode with
  | read => exact ⟨⟨0, by simp [RemoteQueue.frame, hm]⟩, by simp [RemoteQueue.books, hm]⟩
  | write => exact ⟨⟨0, by simp [RemoteQueue.frame, hm]⟩, by simp [RemoteQueue.books, hm]⟩

private theorem numChannels_clearRequest (q : RemoteQueue) : (Side.clearRequest q).queue = q.queue := by
  unfold Side.clearRequest
  cases q.mode <;> rfl

/-- The loop goes on after a wait. -/
theorem leavesWait (h : SideSound k s) {t c : Nat} {grown : Bool} (hw : Waiting k s.q t c) :
    Simulated k s inbox peerEnded act
      ⟨{ s with q := Side.clearRequest s.q, node := .loop t c grown }, inbox, []⟩ :=
  h.calmNode (calm_clearRequest s.q)
    ⟨by rw [numChannels_clearRequest]; exact hw.chan, hw.thresh, asking_of_waiting hw⟩

/-- What the first loop of `WaitForData` and `WaitForFreespace` does. -/
theorem waitRemote_cases {t c : Nat} (grown : Bool) (hw : Waiting k s.q t c) (saveclock : Nat) :
    ∃ q' node, s.waitRemote t c grown saveclock = { s with q := q', node := node } ∧ Calm s.q q' ∧ NodeAt k q' node := by
  unfold Side.waitRemote
  split_ifs
  · exact ⟨s.q, _, rfl, .of_still (.refl s.q), hw⟩
  · exact ⟨s.q, _, rfl, .of_still (.refl s.q), hw⟩
  · refine ⟨_, _, rfl, calm_clearRequest s.q, ?_, hw.thresh, asking_of_waiting hw⟩
    rw [numChannels_clearRequest]
    exact hw.chan

private theorem waitRemote (h : SideSound k s) {t c saveclock : Nat} {grown : Bool} (hw : Waiting k s.q t c) :
    Simulated k s inbox peerEnded act ⟨s.waitRemote t c grown saveclock, inbox, []⟩ := by
  obtain ⟨q', node, heq, hs, hnode⟩ := waitRemote_cases grown hw saveclock
  rw [heq]
  exact h.calmNode hs hnode

/-- `WaitForData` or `WaitForFreespace`, from its call on. -/
theorem waitForPeer (h : SideSound k s) {t c : Nat} {grown : Bool} (hs : Calm s.q q') (hw : Waiting k q' t c) :
    Simulated k s inbox peerEnded act ⟨({ s with q := q' } : Side).waitForPeer t c grown, inbox, []⟩ := by
  obtain ⟨q2, hq2⟩ : ∃ q2, q2 = { q' with pendingBlock := true, tagUpdated := false }.signal := ⟨_, rfl⟩
  have hs2 : Calm s.q q2 := by
    rw [hq2]
    exact ⟨hs.frame, hs.books⟩
  have hw2 : Waiting k ({ s with q := q2 } : Side).q t c := by
    rw [hq2]
    exact ⟨hw.chan, hw.thresh, hw.nodeIn, hw.nodeThresh, hw.nodeRequest, hw.maxThreshold⟩
  obtain ⟨q3, node, heq, hs3, hnode⟩ := waitRemote_cases grown hw2 (q'.clock + 1)
  have heq' : Side.waitForPeer { s with q := q' } t c grown = { s with q := q3, node := node } := by
    rw [← show Side.waitRemote { s with q := q2 } t c grown (q'.clock + 1) = { s with q := q3, node := node } from heq,
      hq2]
    rfl
  rw [heq']
  exact h.calmNode (hs2.trans hs3) hnode

theorem wakes (h : SideSound k s) : Simulated k s inbox peerEnded .wakes ⟨s.wakes k, inbox, []⟩ := by
  have hat := h.node
  unfold Side.wakes
  cases hn : s.node with
  | waitRemote t c grown saveclock =>
    rw [hn] at hat
    exact h.waitRemote hat
  | waitLocal t c grown =>
    rw [hn] at hat
    dsimp only
    split_ifs
    · exact h.still (.refl s.q)
    · exact h.leavesWait hat
  | growing len mt after => exact h.resumeGrow hn
  | _ => exact h.still (.refl s.q)

/-! ### The action thread -/

/-- A section of `InternalCheckStatus` that sends a report. -/
theorem reported (h : SideSound k s) {r : RemoteQueue.Sends} {R : Endpoint.Report} {eof : Bool} {action : ActionPc}
    (hr : RemoteQueue.Reported { s.q with eof := s.q.eof || eof } r R) (hp : s.packet = none)
    (ha : ({ s with action := action } : Side).packet = none) (haction : ActionAt r.1 action)
    (heof : eof = true → inbox = [] ∧ peerEnded = true) (hgrow : R.grow.isSome = true → ∃ b, act = .readDone b) :
    Simulated k s inbox peerEnded act ⟨{ s with q := r.1, action := action }, inbox, r.2.map .header⟩ := by
  have hframe : r.1.frame = s.q.frame := hr.frame
  have hpres := Preserved.of_frame h ⟨s.q.frame.request, hframe⟩
  have hq : r.1.queue = s.q.queue := congrArg Frame.queue hframe
  have hsame : SamePacket s action := .inr ⟨hp, ha⟩
  have hend := endpoint_keep h hpres s.node hsame (by rw [hq]) (by simp [hq])
  refine ⟨h.keep hpres ?_ (hpres.nodeAt (nodeRequest_of_frame hframe) h.node) haction hsame.packet_eq, ?_,
    RemoteQueue.frame_mode hframe⟩
  · have hb : r.1.bytecount = if R.dequeue.isSome then s.q.queue.count else s.q.bytecount :=
      congrArg Books.bytecount hr.books
    have hbc := h.bytecount
    rw [hb]
    split_ifs with hd
    · obtain ⟨p, hp⟩ := Option.isSome_iff_exists.1 hd
      have : s.q.queue.count < s.q.bytecount := (hr.fits.dequeue p hp).2.2.1
      omega
    · exact hbc
  · have hfits : R.Fits s.q.books s.q.queue.count s.q.queue.maxThreshold s.q.mode :=
      ⟨hr.fits.grow, hr.fits.dequeue, hr.fits.informs, hr.fits.ends⟩
    rw [hend, hr.books, hq, hr.packets]
    exact .reports (v := s.endpoint) hp heof hgrow hfits hr.dead

theorem readDone (h : SideSound k s) {eof : Bool} (hact : s.action = .reading)
    (heof : eof = true → inbox = [] ∧ peerEnded = true) :
    Simulated k s inbox peerEnded (.readDone eof)
      ⟨(s.readDone eof).1, inbox, (s.readDone eof).2.map .header⟩ := by
  have hp : s.packet = none := by rw [Side.packet, hact]
  obtain ⟨r, hr⟩ : ∃ r, RemoteQueue.sendPendingGrow { s.q with eof := s.q.eof || eof } = r := ⟨_, rfl⟩
  obtain ⟨g, hg⟩ := RemoteQueue.sendPendingGrow_reported { s.q with eof := s.q.eof || eof }
  rw [hr] at hg
  have hmode : r.1.mode = s.q.mode := RemoteQueue.frame_mode hg.frame
  have hbytes : r.1.bytecount = s.q.bytecount := congrArg Books.bytecount hg.books
  unfold Side.readDone
  dsimp only
  rw [hr]
  cases hm : s.q.mode with
  | read =>
    obtain ⟨R, hR, hRg⟩ := RemoteQueue.finishRead_reported (hmode.trans hm) (hbytes ▸ h.bytecount)
    exact h.reported (hg.andThen hR hRg) hp rfl trivial heof fun _ => ⟨eof, rfl⟩
  | write =>
    dsimp only
    split_ifs with hsent
    · obtain ⟨R, hR, hRg⟩ := RemoteQueue.finishWrite_reported (hmode.trans hm)
      exact h.reported (hg.andThen hR hRg) hp rfl trivial heof fun _ => ⟨eof, rfl⟩
    · exact h.reported hg hp rfl ⟨hmode.trans hm, by simpa using hsent⟩ heof fun _ => ⟨eof, rfl⟩

theorem check (h : SideSound k s) (hact : s.action = .starting ∨ s.action = .idle) :
    Simulated k s inbox peerEnded act ⟨s.check, inbox, []⟩ := by
  have hp : s.packet = none := by rcases hact with ha | ha <;> rw [Side.packet, ha]
  unfold Side.check
  by_cases hdead : s.q.dead = true
  · rw [if_pos hdead]
    exact h.stillAction (.refl s.q) (.inr ⟨hp, rfl⟩) trivial
  rw [if_neg hdead]
  obtain ⟨q', hq, hs⟩ : ∃ q', (if s.action = .idle then { s.q with pendingAction := false } else s.q) = q' ∧
      Still s.q q' := by
    refine ⟨_, rfl, ?_⟩
    split_ifs
    · exact ⟨rfl, rfl⟩
    · exact .refl s.q
  dsimp only at hq ⊢
  rw [hq]
  split_ifs with hclosed heof
  · exact h.stillAction hs (.inr ⟨hp, rfl⟩) trivial
  · refine h.fails _ (.inr (.inl ?_))
    have he : q'.eof = s.q.eof := congrArg Books.eof hs.books
    have hpeer : q'.books.peerShutdown = s.q.books.peerShutdown := congrArg Books.peerShutdown hs.books
    simp only [Bool.and_eq_true, Bool.not_eq_true', Bool.or_eq_false_iff] at heof
    refine ⟨he.symm.trans heof.1, hpeer.symm.trans ?_⟩
    cases hm : q'.mode with
    | read => exact (RemoteQueue.peerShutdown_read hm).trans heof.2.2
    | write => exact (RemoteQueue.peerShutdown_write hm).trans heof.2.1
  · exact h.stillAction hs (.inr ⟨hp, rfl⟩) trivial

theorem shutdown (h : SideSound k s) : Simulated k s inbox peerEnded act ⟨s.shutdown, inbox, []⟩ := by
  unfold Side.shutdown
  cases hm : s.q.mode with
  | read =>
    refine h.still ⟨rfl, ?_⟩
    change { s.q.books with peerShutdown := match s.q.mode with
      | .read => s.q.writeshutdown
      | .write => true } = _
    simp [RemoteQueue.books, hm]
  | write =>
    refine h.still ⟨rfl, ?_⟩
    change { s.q.books with peerShutdown := match s.q.mode with
      | .read => true
      | .write => s.q.readshutdown } = _
    simp [RemoteQueue.books, hm]

/-- No pointers are held while no operation is outstanding. -/
theorem ptrs_eq_nil (h : SideSound k s) (hin : s.q.nodeIn = false) : s.ptrs = [] := by
  refine List.eq_nil_iff_forall_not_mem.2 fun p hp => ?_
  rw [(h.ptrs p hp).1] at hin
  cases hin

private theorem written_eq_none (h : SideSound k s) (hin : s.q.nodeIn = false) (c j : Nat) : s.written c j = none := by
  cases hw : s.written c j with
  | none => rfl
  | some b =>
    obtain ⟨hm, hin', -⟩ := h.written c j b hw
    rw [RemoteQueue.nodeIn, hm] at hin
    exact absurd (hin'.symm.trans hin) (by decide)

/-- The threshold of the node may be set while no operation of the node is outstanding. -/
private theorem setThresh (h : SideSound k s) {t c : Nat} (hc : c < s.q.queue.numChannels) (ht : t < 2 ^ 32)
    (hin : s.q.nodeIn = false) (hst : q'.toThresholdQueue.Stored s.outEnqueue s.outDequeue)
    (h1 : q'.nodeOpen = s.q.nodeOpen) (h2 : q'.nodeThresh = t) (h3 : q'.actionIn = s.q.actionIn)
    (h4 : q'.nodeIn = s.q.nodeIn) (h5 : q'.mode = s.q.mode) (h6 : q'.queue = s.q.queue) (h7 : q'.bytecount = s.q.bytecount)
    (haction : ActionAt q' s.action) : SideSound k { s with q := q', node := .loop t c false } := by
  refine ⟨?_, h6.symm ▸ h.numChannels, h7.symm ▸ h.bytecount, h3.trans h.actionIn, ?_, haction, ?_, ?_⟩
  · unfold Side.outEnqueue Side.outDequeue at hst ⊢
    dsimp only at hst ⊢
    rw [h5, h1]
    exact hst
  · refine ⟨h6.symm ▸ hc, ht, ?_⟩
    rw [Asking, h4, hin]
    exact h2
  · intro p hp
    change p ∈ s.ptrs at hp
    rw [h.ptrs_eq_nil hin] at hp
    cases hp
  · intro c j b hb
    change s.written c j = some b at hb
    rw [h.written_eq_none hin] at hb
    cases hb

theorem getRawPtr (h : SideSound k s) {t c : Nat} (hc : c < s.q.queue.numChannels) (ht : t < 2 ^ 32) :
    Simulated k s inbox peerEnded act ⟨s.getRawPtr t c, inbox, []⟩ := by
  have hgo : s.q.nodeIn = true → t ≤ s.q.nodeThresh →
      Simulated k s inbox peerEnded act ⟨{ s with node := .loop t c false }, inbox, []⟩ := by
    intro hin hle
    refine h.calmNode (.of_still (.refl s.q)) ⟨hc, ht, ?_⟩
    rw [Asking, if_pos hin]
    exact hle
  unfold Side.getRawPtr
  cases hm : s.q.mode with
  | read =>
    have hnode : s.q.nodeIn = s.q.indequeue := by rw [RemoteQueue.nodeIn, hm]
    dsimp only
    split_ifs with hin hle
    · exact hgo (hnode.trans hin) (by rw [RemoteQueue.nodeThresh, hm]; exact hle)
    · exact h.still (.refl s.q)
    · have hin : s.q.indequeue = false := by simpa using hin
      refine ⟨h.setThresh hc ht (hnode.trans hin) (h.stored.of_eq rfl rfl rfl rfl rfl rfl) ?_ ?_ rfl rfl rfl rfl rfl
        (h.action.congr rfl rfl rfl fun _ => rfl), .quiet, rfl⟩
      · simp [RemoteQueue.nodeOpen, RemoteQueue.nodeIn, RemoteQueue.nodeUseOld, hm, hin]
      · simp [RemoteQueue.nodeThresh, hm]
  | write =>
    have hnode : s.q.nodeIn = s.q.inenqueue := by rw [RemoteQueue.nodeIn, hm]
    dsimp only
    split_ifs with hin hle
    · exact hgo (hnode.trans hin) (by rw [RemoteQueue.nodeThresh, hm]; exact hle)
    · exact h.still (.refl s.q)
    · have hin : s.q.inenqueue = false := by simpa using hin
      refine ⟨h.setThresh hc ht (hnode.trans hin) (h.stored.of_eq rfl rfl rfl rfl rfl rfl) ?_ ?_ rfl rfl rfl rfl rfl
        (h.action.congr rfl rfl rfl fun _ => rfl), .quiet, rfl⟩
      · simp [RemoteQueue.nodeOpen, RemoteQueue.nodeIn, RemoteQueue.nodeUseOld, hm, hin]
      · simp [RemoteQueue.nodeThresh, hm]

/-! ### Packets -/

/-- Only the books change. -/
theorem keepFrame (h : SideSound k s) (hf : q'.frame = s.q.frame) (hb : q'.bytecount < 2 ^ 32)
    (hsent : q'.sentEnd = s.q.sentEnd) :
    SideSound k { s with q := q' } ∧ ({ s with q := q' } : Side).endpoint = { s.endpoint with toBooks := q'.books } := by
  have hp := Preserved.of_frame h ⟨s.q.frame.request, hf⟩
  have hq : q'.queue = s.q.queue := congrArg Frame.queue hf
  refine ⟨h.keep hp hb (hp.nodeAt (nodeRequest_of_frame hf) h.node) (hp.actionAt h hsent) rfl, ?_⟩
  rw [endpoint_keep h hp s.node (.inl rfl) (by rw [hq]) (by simp [hq]), hq]
  rfl

private theorem sub32_lt (a b : Nat) : sub32 a b < 2 ^ 32 := Nat.mod_lt _ (by norm_num)

theorem u32_lt (a : Nat) : u32 a < 2 ^ 32 := Nat.mod_lt _ (by norm_num)

private theorem not_both_of_packet (h : SideSound k s) (hp : s.packet = none) :
    ¬(s.q.inenqueue = true ∧ s.q.indequeue = true) := by
  have hin := h.actionIn
  rw [hp, RemoteQueue.actionIn] at hin
  cases hm : s.q.mode <;> rw [hm] at hin <;> simp_all

/-- All packets but the enqueue packet. -/
theorem fires (h : SideSound k s) {p : Packet} {rest : Wire} (hact : s.action = .reading) (hfail : s.failed = none)
    (hp : p.type ≠ .enqueue) :
    Simulated k s (.header p :: rest) peerEnded .readPacket ⟨s.readPacket k p,
      if (s.readPacket k p).failed = none then rest else .header p :: rest, []⟩ := by
  have hpacket : s.packet = none := by rw [Side.packet, hact]
  have hfired := RemoteQueue.firePacket_fired (k := k) h.stored (h.not_both_of_packet hpacket) hp
  unfold Side.readPacket
  rw [if_neg hp]
  generalize s.q.firePacket k p = x at hfired
  cases hfired with
  | @informed q' ht hs =>
    obtain ⟨hsound, hend⟩ := h.keepFrame hs.frame (by
      rw [show q'.bytecount = s.q.bytecount from congrArg Books.bytecount hs.books]
      exact h.bytecount) (congrArg Books.sentEnd hs.books)
    refine ⟨hsound, ?_, RemoteQueue.frame_mode hs.frame⟩
    dsimp only
    rw [hend, hs.books, if_pos hfail]
    exact .hears rfl ht
  | @ended q' ht hpeer hf hb =>
    obtain ⟨hsound, hend⟩ := h.keepFrame hf (by
      rw [show q'.bytecount = s.q.bytecount from congrArg Books.bytecount hb]
      exact h.bytecount) (congrArg Books.sentEnd hb)
    refine ⟨hsound, ?_, RemoteQueue.frame_mode hf⟩
    dsimp only
    rw [hend, hb, if_pos hfail]
    exact .hearsEnd rfl hpeer ht
  | @dequeued q' ht hm hf hb =>
    obtain ⟨hsound, hend⟩ := h.keepFrame hf (by
      rw [show q'.bytecount = sub32 s.q.bytecount p.count from congrArg Books.bytecount hb]
      exact sub32_lt _ _) (congrArg Books.sentEnd hb)
    refine ⟨hsound, ?_, RemoteQueue.frame_mode hf⟩
    dsimp only
    rw [hend, hb, if_pos hfail, hm]
    exact .hearsDequeue rfl ht hpacket rfl
  | @grew q' ht hg =>
    have hpres := Preserved.of_grew hg
    refine ⟨h.keep hpres ?_ (hpres.nodeAt (nodeRequest_of_grew hg) h.node)
      (hpres.actionAt h (congrArg Books.sentEnd hg.books)) rfl, ?_, hg.mode⟩
    · rw [show q'.bytecount = s.q.bytecount from congrArg Books.bytecount hg.books]
      exact h.bytecount
    · dsimp only
      rw [endpoint_keep h hpres s.node (.inl rfl) hg.count hg.contents, hg.books, hg.length, hg.maxThreshold, if_pos hfail]
      exact .hearsGrow rfl ht
  | failed hf =>
    -- an assertion fails: the packet stays where it is
    dsimp only
    rw [if_neg (by simp [Side.fail])]
    refine h.fails _ ?_
    rcases hf with hs | hs
    · exact .inl (h.stale_of_stale hs)
    · exact .inr (.inr ⟨p, rest, rfl, .inl hs⟩)

end SideSound

end ProcessNetwork
