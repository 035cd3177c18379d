import ProcessNetwork.RemoteSide

/-!
# The side of the writer

The steps that only the side of the writer takes: the passes of `GetRawEnqueuePtr`, the bytes the node writes and
enqueues, and the packets that the action thread sends.
-/

namespace ProcessNetwork

open ThresholdQueue (Carries SameEnqueue SameDequeue)
open RemoteQueue (Still GrewTo)
open ThresholdQueueBase (SameShape)

variable {k : KernelBase} {s : Side} {q : RemoteQueue} {inbox : Wire} {peerEnded : Bool} {act : SideAct} {t c : Nat}
  {grown : Bool}

namespace SideSound

theorem outEnqueue_write (hm : s.q.mode = .write) : s.outEnqueue = s.q.nodeOpen := by
  rw [Side.outEnqueue, hm]

theorem outDequeue_write (hm : s.q.mode = .write) : s.outDequeue = s.packetCount := by
  rw [Side.outDequeue, hm]

private theorem nodeIn_write (hm : s.q.mode = .write) : s.q.nodeIn = s.q.inenqueue := by
  rw [RemoteQueue.nodeIn, hm]

private theorem nodeThresh_write (hm : s.q.mode = .write) : s.q.nodeThresh = s.q.enqueuethresh := by
  rw [RemoteQueue.nodeThresh, hm]

private theorem stale_write (hm : s.q.mode = .write) : s.stale = (!s.q.inenqueue && s.q.enqueueUseOld) := by
  rw [Side.stale, hm]

private theorem stale_of_inenqueue (hm : s.q.mode = .write) (hin : s.q.inenqueue = true) : s.stale = false := by
  rw [stale_write hm, hin]
  rfl

/-- While nothing is left behind, what is open for the writer is its outstanding enqueue. -/
theorem nodeOpen_write (hm : s.q.mode = .write) (hs : s.stale = false) : s.q.nodeOpen = s.q.toQueueBase.outEnqueue := by
  rw [stale_write hm] at hs
  rw [RemoteQueue.nodeOpen, nodeIn_write hm, nodeThresh_write hm, RemoteQueue.nodeUseOld, hm, QueueBase.outEnqueue]
  cases hin : s.q.inenqueue <;> simp_all

theorem nodeOpen_of_inenqueue (hm : s.q.mode = .write) (hin : s.q.inenqueue = true) :
    s.q.nodeOpen = some s.q.enqueuethresh := by
  rw [RemoteQueue.nodeOpen, nodeIn_write hm, nodeThresh_write hm, if_pos hin]

private theorem indequeue_write (h : SideSound k s) (hm : s.q.mode = .write) : s.q.indequeue = s.packet.isSome := by
  have hin := h.actionIn
  rwa [RemoteQueue.actionIn, hm] at hin

theorem ptrs_write (h : SideSound k s) (hm : s.q.mode = .write) {p : HeldPtr} (hp : p ∈ s.ptrs) :
    s.q.inenqueue = true ∧ p.chan < s.q.queue.numChannels ∧ p.thresh ≤ s.q.enqueuethresh ∧
      p.ptr = s.q.enqueuePtr p.chan := by
  have hptr := h.ptrs p hp
  rwa [nodeIn_write hm, nodeThresh_write hm, RemoteQueue.nodePtr, hm] at hptr

/-- The invariant in terms of enqueues and dequeues. -/
theorem of_write {e : Option Nat} (hm : s.q.mode = .write) (he : s.q.nodeOpen = e)
    (hst : s.q.toThresholdQueue.Stored e s.packetCount) (hnum : 0 < s.q.queue.numChannels)
    (hbytes : s.q.bytecount < 2 ^ 32) (hin : s.q.indequeue = s.packet.isSome) (hnode : NodeAt k s.q s.node)
    (haction : ActionAt s.q s.action)
    (hptrs : ∀ p ∈ s.ptrs, s.q.inenqueue = true ∧ p.chan < s.q.queue.numChannels ∧ p.thresh ≤ s.q.enqueuethresh ∧
      p.ptr = s.q.enqueuePtr p.chan)
    (hwritten : ∀ c j b, s.written c j = some b → s.q.inenqueue = true ∧
      (s.q.enqueueRegion c s.q.enqueuethresh)[j]? = some b) : SideSound k s := by
  refine ⟨?_, hnum, hbytes, ?_, hnode, haction, fun p hp => ?_, fun c j b hb => ⟨hm, hwritten c j b hb⟩⟩
  · rwa [outEnqueue_write hm, outDequeue_write hm, he]
  · rwa [RemoteQueue.actionIn, hm]
  · rw [nodeIn_write hm, nodeThresh_write hm, RemoteQueue.nodePtr, hm]
    exact hptrs p hp

private theorem arrived_eq_nil_of_write (hat : ActionAt q s.action) (hm : q.mode = .write) {c : Nat} : s.arrived c = [] := by
  unfold Side.arrived
  cases ha : s.action with
  | receiving p ptrs n =>
    rw [ha] at hat
    exact absurd (hat.1.symm.trans hm) (by decide)
  | _ => rfl

/-! ### The loop of `GetRawEnqueuePtr` -/

/-- The writer gets a pointer. -/
theorem takesEnqueuePtr (h : SideSound k s) (hm : s.q.mode = .write) (hn : s.node = .loop t c grown)
    (hs : s.stale = false)
    (hp : s.q.inenqueue = true ∨ t ≤ s.q.queue.freespace ∧ t ≤ s.q.queue.maxThreshold) :
    Simulated k s inbox peerEnded act
      ⟨{ s with
        q := { s.q with inenqueue := true }, node := .idle, ptrs := ⟨c, t, s.q.enqueuePtr c⟩ :: s.ptrs }, inbox, []⟩ := by
  obtain ⟨hc, ht, hask⟩ : c < s.q.queue.numChannels ∧ t < 2 ^ 32 ∧ Asking s.q t := hn ▸ h.node
  rw [Asking, nodeIn_write hm, nodeThresh_write hm] at hask
  have hthresh : t ≤ s.q.enqueuethresh := by
    split_ifs at hask
    · exact hask
    · exact Nat.le_of_eq hask.symm
  have hst := h.stored
  rw [outEnqueue_write hm, outDequeue_write hm, nodeOpen_write hm hs] at hst
  refine ⟨?_, ?_, rfl⟩
  · refine .of_write hm (nodeOpen_of_inenqueue hm rfl) ?_ h.numChannels h.bytecount (h.indequeue_write hm) trivial
      (h.action.congr rfl rfl rfl fun _ => rfl) ?_ ?_
    · show Carries _ _ (some s.q.enqueuethresh) s.packetCount
      by_cases hin : s.q.inenqueue = true
      · rw [QueueBase.outEnqueue, if_pos hin] at hst
        exact hst.of_eq rfl rfl rfl rfl hin.symm rfl
      · rw [if_neg hin] at hask
        rw [QueueBase.outEnqueue, if_neg hin] at hst
        have hp := hp.resolve_left hin
        rw [hask]
        exact hst.beginEnqueue hp.1 hp.2 rfl rfl
    · intro p hp
      rcases List.mem_cons.1 hp with rfl | hp
      · exact ⟨rfl, hc, hthresh, rfl⟩
      · exact ⟨rfl, (h.ptrs_write hm hp).2⟩
    · intro c j b hb
      exact ⟨rfl, (h.written c j b hb).2.2⟩
  · have hend : ∀ ptrs, Side.endpoint { s with q := { s.q with inenqueue := true }, node := .idle, ptrs := ptrs } =
        s.endpoint := by
      intro ptrs
      refine endpoint_eq rfl rfl rfl rfl (fun _ => rfl) ?_ rfl
      rw [hs]
      exact stale_of_inenqueue hm rfl
    rw [hend]
    exact .quiet

/-- A pass of the loop of a remote queue that grows. -/
theorem growingPass (h : SideSound k s) {len : Nat} (g : Bool) (hc : c < s.q.queue.numChannels) (ht : t < 2 ^ 32)
    (hask : Asking s.q t) (hin : s.q.nodeIn = false) (hlen : len < 2 ^ 32)
    (hn : s.node = .loop t c grown) (hreq : s.q.passRequest k t grown = some (len, t))
    (hpass : Side.passOf k s.q t c grown = (Queue.growPass k s.q len t).map (·, g)) :
    Simulated k s inbox peerEnded .pass ⟨s.pass k t c grown, inbox, []⟩ := by
  have hloop : NodeAt k s.q (.loop t c g) := ⟨hc, ht, hask⟩
  have hgrowing : NodeAt k s.q (.growing len t (.loop t c g)) := ⟨hlen, ht, hin, hloop⟩
  unfold Side.pass
  rw [hpass]
  rcases RemoteQueue.growPass_cases (k := k) h.stored (not_both hin) len t with
    ⟨q', hok | hok, hs⟩ | ⟨q', hok, hgr, hg⟩ | ⟨hs, fault, herr⟩
  · rw [hok]
    have hp := Preserved.of_frame h (Calm.of_still hs).frame
    exact h.calmNode (.of_still hs) (hp.nodeAt (nodeRequest_of_frame hs.frame) hloop)
  · rw [hok]
    have hp := Preserved.of_frame h (Calm.of_still hs).frame
    exact h.calmNode (.of_still hs) (hp.nodeAt (nodeRequest_of_frame hs.frame) hgrowing)
  · have hact : s.growth k .pass = some (len, t) := by
      rw [Side.growth, hn]
      dsimp only
      rw [hreq]
      exact hgr
    rw [hok]
    exact h.grows hact hlen ht hg hloop
  · rw [herr]
    exact h.fails fault (.inl (h.stale_of_stale hs))

/-- A call of `UnlockedGrow` in the loop of `GetRawEnqueuePtr`. -/
theorem passRequest_write (hm : s.q.mode = .write) (hcr : Queue.Crowded s.q t) (hsd : s.q.toQueueBase.shutdown = false)
    (hk : k.growQueueMaxThreshold = true) : s.q.passRequest k t grown =
      if s.q.queue.maxThreshold < t then some (u32 (2 * t), t)
      else if (!grown && Queue.readBlocked s.q) = true then some (u32 (s.q.readrequest + t), t) else none := by
  have href : s.q.refuses t = true := by
    rw [RemoteQueue.refuses, hm]
    simpa using show s.q.inenqueue = false ∧ (s.q.queue.freespace < t ∨ s.q.queue.maxThreshold < t) from hcr
  have hsd : (s.q.readshutdown || s.q.writeshutdown) = false := hsd
  rw [RemoteQueue.passRequest, href, hsd, hk, RemoteQueue.crossed, RemoteQueue.peerRequest, hm]
  rfl

theorem enqueuePass (h : SideSound k s) (hm : s.q.mode = .write) (hn : s.node = .loop t c grown) :
    Simulated k s inbox peerEnded .pass ⟨s.pass k t c grown, inbox, []⟩ := by
  obtain ⟨hc, ht, hask⟩ : c < s.q.queue.numChannels ∧ t < 2 ^ 32 ∧ Asking s.q t := hn ▸ h.node
  have hpass : Side.passOf k s.q t c grown = Queue.enqueuePass k s.q t c grown := by rw [Side.passOf, hm]
  by_cases hs : s.stale = true
  · -- the assertion on the ring that was left behind fails
    obtain ⟨hin, hold⟩ : s.q.inenqueue = false ∧ s.q.enqueueUseOld = true := by simpa [stale_write hm] using hs
    unfold Side.pass
    rw [hpass, Queue.enqueuePass]
    rw [show (Queue.threshold s.q).internalGetRawEnqueuePtr t c = _ from
      ThresholdQueue.internalGetRawEnqueuePtr_stale hin hold]
    exact h.fails _ (.inl hs)
  have hs : s.stale = false := by simpa using hs
  have hst := h.stored
  rw [outEnqueue_write hm, outDequeue_write hm, nodeOpen_write hm hs] at hst
  have henq : s.q.toQueueBase.Enqueuing t := by
    have hask' := hask
    rwa [Asking, nodeIn_write hm, nodeThresh_write hm] at hask'
  have hnode : ∀ b, s.q.inenqueue = b → s.q.nodeIn = b := fun b hb => (nodeIn_write hm).trans hb
  have ho : Queue.EnqueueOutcome k s.q t c grown _ := Queue.enqueuePass_outcome hst henq
  generalize hx : Queue.enqueuePass k s.q t c grown = x at ho
  cases ho with
  | pointer hp =>
    unfold Side.pass
    rw [hpass, hx]
    exact h.takesEnqueuePtr hm hn hs hp
  | broken hcr hsd =>
    unfold Side.pass
    rw [hpass, hx]
    exact h.calmNode (.of_still (.refl s.q)) trivial
  | raises hcr hsd hk hlt =>
    refine h.growingPass grown hc ht hask (hnode _ hcr.1) (u32_lt _) hn ?_ (hpass.trans hx)
    rw [passRequest_write hm hcr hsd hk]
    exact if_pos hlt
  | grows hcr hsd hk hle hg hb =>
    refine h.growingPass true hc ht hask (hnode _ hcr.1) (u32_lt _) hn ?_ (hpass.trans hx)
    rw [passRequest_write hm hcr hsd hk]
    refine (if_neg (Nat.not_lt.2 hle)).trans (if_pos ?_)
    rw [hg, hb]
    rfl
  | waits hcr hsd hk =>
    unfold Side.pass
    rw [hpass, hx]
    have hin : s.q.inenqueue = false := hcr.1
    have henq' := henq
    rw [QueueBase.Enqueuing, hin] at henq'
    refine h.waitForPeer ⟨⟨t, ?_⟩, rfl⟩ ⟨hc, ht, hnode _ hin, (nodeThresh_write hm).trans henq', ?_, fun hk' => (hk hk').1⟩
    · simp only [RemoteQueue.frame, Queue.withBase, Queue.base, Queue.threshold, hm]
    · simp only [RemoteQueue.nodeRequest, Queue.withBase, Queue.base, Queue.threshold, hm]

/-! ### Writing and enqueueing -/

theorem write (h : SideSound k s) (hm : s.q.mode = .write) {p : HeldPtr} {off : Nat} (b : Byte) (hp : p ∈ s.ptrs)
    (hoff : off < p.thresh) : Simulated k s inbox peerEnded act ⟨s.write p off b, inbox, []⟩ := by
  obtain ⟨hin, hchan, hthresh, hptr⟩ := h.ptrs_write hm hp
  have hcar := h.stored
  rw [outEnqueue_write hm, outDequeue_write hm, nodeOpen_of_inenqueue hm hin] at hcar
  obtain ⟨base, hok, hcar', hst⟩ := hcar.store (show off < s.q.enqueuethresh by omega) p.chan b
  have hnum : base.queue.numChannels = s.q.queue.numChannels := hst.queue.numChannels
  have hin' : base.inenqueue = true := by rw [hst.toQueueBase]; exact hin
  obtain ⟨q', hq'⟩ : ∃ q' : RemoteQueue, q' = { s.q with toThresholdQueue := base } := ⟨_, rfl⟩
  have hbase : q'.toThresholdQueue = base := by rw [hq']
  have hm' : q'.mode = .write := by rw [hq']; exact hm
  have hbooks : q'.books = s.q.books := by
    rw [hq']
    simp [RemoteQueue.books, hst.toQueueBase]
  have hthresh' : q'.enqueuethresh = s.q.enqueuethresh := by rw [hbase, hst.toQueueBase]
  have hinq : q'.inenqueue = true := by rw [hbase]; exact hin'
  have hnumq : q'.queue.numChannels = s.q.queue.numChannels := by rw [hbase]; exact hnum
  rw [Side.write, hptr, hok]
  show Simulated k s inbox peerEnded act ⟨{ s with q := { s.q with toThresholdQueue := base }, written := _ }, inbox, []⟩
  rw [← hq']
  refine ⟨?_, ?_, hm'.trans hm.symm⟩
  · refine .of_write hm' (nodeOpen_of_inenqueue hm' hinq) ?_ (hnumq.symm ▸ h.numChannels) ?_ ?_ ?_ ?_ ?_ ?_
    · show q'.Stored (some q'.enqueuethresh) s.packetCount
      rw [hthresh', hbase]
      exact hcar'.stored
    · rw [show q'.bytecount = s.q.bytecount from congrArg Books.bytecount hbooks]
      exact h.bytecount
    · show q'.indequeue = s.packet.isSome
      rw [hbase, hst.toQueueBase]
      exact h.indequeue_write hm
    · refine h.node.congr hnumq ?_ ?_ ?_ ?_
      · rw [RemoteQueue.nodeIn, RemoteQueue.nodeIn, hm', hm]
        exact hinq.trans hin.symm
      · rw [RemoteQueue.nodeThresh, RemoteQueue.nodeThresh, hm', hm]
        exact hthresh'
      · rw [RemoteQueue.nodeRequest, RemoteQueue.nodeRequest, hm', hm]
        show q'.writerequest = s.q.writerequest
        rw [hbase, hst.toQueueBase]
      · rw [hbase]
        exact Nat.le_of_eq hst.queue.maxThreshold.symm
    · refine h.action.congr (hm'.trans hm.symm) (congrArg Books.sentEnd hbooks) ?_ ?_
      · exact hnumq
      · intro c'
        rw [RemoteQueue.actionPtr, RemoteQueue.actionPtr, hm', hm]
        show q'.dequeuePtr c' = s.q.dequeuePtr c'
        rw [hbase]
        exact hst.dequeuePtr c'
    · intro p' hp'
      obtain ⟨h1, h2, h3, h4⟩ := h.ptrs_write hm hp'
      refine ⟨hinq, hnumq.symm ▸ h2, hthresh'.symm ▸ h3, h4.trans ?_⟩
      show s.q.enqueuePtr p'.chan = q'.enqueuePtr p'.chan
      rw [hbase]
      exact (hst.enqueuePtr _).symm
    · intro c' j x hx
      refine ⟨hinq, ?_⟩
      show (q'.enqueueRegion c' q'.enqueuethresh)[j]? = some x
      rw [hthresh', hbase]
      exact hst.getElem?_of_written (by omega) (fun c j x hx => (h.written c j x hx).2.2) hx
  -- the bytes in the region are not part of what is stored until `Enqueue`
  · have hend : ∀ w, Side.endpoint { s with q := q', written := w } = s.endpoint := by
      intro w
      have hcontents : ∀ c' < s.q.queue.numChannels, q'.queue.contents c' = s.q.queue.contents c' := by
        intro c' hc'
        rw [hbase]
        exact hcar'.contents_eq (hnum.symm ▸ hc')
      refine endpoint_of hbooks ?_ ?_ hnumq ?_ (Side.onChannels_congr hnumq hcontents)
        (Side.onChannels_congr hnumq fun _ _ => rfl) rfl (Side.onChannels_congr hnumq fun c' _ => ?_) ?_ rfl
      · rw [hbase]
        exact hst.queue.queueLength
      · rw [hbase]
        exact hst.queue.maxThreshold
      · rw [hbase]
        exact hst.count
      · rw [arrived_eq_nil_of_write h.action hm]
        exact arrived_eq_nil_of_write (s := { s with q := q' }) h.action hm
      · rw [show s.endpoint.stale = s.stale from rfl, stale_of_inenqueue hm hin]
        exact stale_of_inenqueue hm' hinq
    rw [hend]
    exact .quiet

private theorem newBytes_eq (h : SideSound k s) (hm : s.q.mode = .write) {n : Nat} (hn : n ≤ s.allowed) (c : Nat) :
    s.newBytes n c = s.q.enqueueRegion c n := by
  refine ThresholdQueue.mapIdx_written_eq (m := s.q.enqueuethresh) fun j x hx => ?_
  obtain ⟨-, hin, hb⟩ := h.written c j x hx
  rw [Side.allowed, hm] at hn
  dsimp only at hn
  rw [if_pos hin] at hn
  exact ⟨hn, hb⟩

/-- The number of bytes that may be enqueued is open. -/
theorem allowed_le_write (hm : s.q.mode = .write) : s.allowed ≤ s.q.nodeOpen.getD 0 := by
  rw [Side.allowed, hm, RemoteQueue.nodeOpen, nodeIn_write hm, nodeThresh_write hm]
  dsimp only
  split_ifs <;> simp

/-- The enqueue of the writer is over. -/
theorem endEnqueue (h : SideSound k s) (hm : s.q.mode = .write) (hn : s.node = .idle) {q' : RemoteQueue} {e : Option Nat}
    {history : Nat → List Byte} (hm' : q'.mode = .write) (he : q'.nodeOpen = e)
    (hst : q'.toThresholdQueue.Stored e s.packetCount) (hshape : SameShape s.q.queue q'.queue)
    (hid : q'.indequeue = s.q.indequeue) (hptr : ∀ c, q'.dequeuePtr c = s.q.dequeuePtr c)
    (hbooks : q'.books = s.q.books) :
    SideSound k { s with q := q', ptrs := [], written := fun _ _ => none, history := history } := by
  refine .of_write hm' he hst (hshape.numChannels.symm ▸ h.numChannels) ?_ ?_ ?_ ?_ ?_ ?_
  · rw [show q'.bytecount = s.q.bytecount from congrArg Books.bytecount hbooks]
    exact h.bytecount
  · exact hid.trans (h.indequeue_write hm)
  · show NodeAt k q' s.node
    rw [hn]
    trivial
  · refine h.action.congr (hm'.trans hm.symm) (congrArg Books.sentEnd hbooks) hshape.numChannels fun c => ?_
    rw [RemoteQueue.actionPtr, RemoteQueue.actionPtr, hm', hm]
    exact hptr c
  · exact fun p hp => absurd hp List.not_mem_nil
  · exact fun c j b hb => (by cases hb)

theorem enqueue (h : SideSound k s) (hm : s.q.mode = .write) (hn : s.node = .idle) {n : Nat} (hc : n ≤ s.allowed) :
    Simulated k s inbox peerEnded (.commit n) ⟨s.enqueue n, inbox, []⟩ := by
  have hst := h.stored
  rw [outEnqueue_write hm, outDequeue_write hm] at hst
  unfold Side.enqueue
  dsimp only
  split_ifs with hsd
  · -- `Enqueue` throws
    have hab := hst.abandonEnqueue (b := { s.q.toQueueBase with enqueuethresh := 0, inenqueue := false }) rfl rfl
    refine ⟨?_, ?_, rfl⟩
    · refine h.endEnqueue hm hn hm ?_ hab (.refl _) rfl (fun _ => rfl) rfl
      rw [RemoteQueue.nodeOpen, RemoteQueue.nodeIn, RemoteQueue.nodeUseOld]
      dsimp only
      rw [hm]
      rfl
    · have hstale : Side.stale
            { s with q := { s.q with enqueuethresh := 0, inenqueue := false }, ptrs := [], written := fun _ _ => none } =
          s.abandons (.commit n) := by
        rw [Side.stale, Side.abandons]
        dsimp only
        rw [hm]
        dsimp only
        rw [hsd]
        rfl
      have hend : Side.endpoint
            { s with q := { s.q with enqueuethresh := 0, inenqueue := false }, ptrs := [], written := fun _ _ => none } =
          { s.endpoint with stale := s.abandons (.commit n) } := by
        rw [← hstale]
        rfl
      rw [hend]
      exact .throws
  -- `Enqueue` puts the bytes into the ring, also those that were written to the old ring before a growth
  · have hsd : s.q.writeshutdown = false := by simpa using hsd
    obtain ⟨base, hok, hbase, hcar, hshape, hcount, hptr⟩ := hst.internalEnqueue (hc.trans (allowed_le_write hm))
      (b := { s.q.toQueueBase with enqueuethresh := 0, inenqueue := false }) rfl rfl
    dsimp only at hok ⊢
    rw [hok]
    obtain ⟨cond, hcond⟩ := RemoteQueue.notifyData_eq { s.q with toThresholdQueue := base }.signal
    obtain ⟨q', hq'⟩ : ∃ q' : RemoteQueue, q' = { ({ s.q with toThresholdQueue := base } : RemoteQueue).signal with
      cond := cond } := ⟨_, rfl⟩
    dsimp only
    rw [hcond, ← hq']
    have hm' : q'.mode = .write := by rw [hq']; exact hm
    have hqueue : q'.queue = base.queue := by rw [hq']; rfl
    have hshape' : SameShape s.q.queue q'.queue := hqueue.symm ▸ hshape
    have hbooks : q'.books = s.q.books := by
      rw [hq']
      simp [RemoteQueue.books, RemoteQueue.signal, hbase]
    have hin : q'.inenqueue = false := by
      rw [hq']
      simp [RemoteQueue.signal, hbase]
    have hstored : q'.toThresholdQueue.Stored none s.packetCount := by
      rw [hq']
      exact hcar.stored.of_eq rfl rfl rfl rfl rfl rfl
    have hold : q'.enqueueUseOld = false := hstored.not_useOld_enqueue
    refine ⟨?_, ?_, hm'.trans hm.symm⟩
    · refine h.endEnqueue hm hn hm' ?_ hstored hshape' ?_ ?_ hbooks
      · rw [RemoteQueue.nodeOpen, RemoteQueue.nodeIn, RemoteQueue.nodeUseOld, hm']
        dsimp only
        rw [hin, hold]
        rfl
      · rw [hq']
        simp [RemoteQueue.signal, hbase]
      · intro c
        rw [hq']
        exact hptr c
    · have hend : ∀ history : Nat → List Byte,
          Side.endpoint { s with q := q', ptrs := [], written := fun _ _ => none, history := history } =
            { s.endpoint with
              count := s.q.queue.count + n
              stored := fun c => s.endpoint.stored c ++ s.onChannels (s.newBytes n) c
              history := s.onChannels history
              stale := false } := by
        intro history
        refine endpoint_of hbooks ?_ ?_ hshape'.numChannels ?_ ?_ ?_ rfl ?_ ?_ rfl
        · exact hshape'.queueLength
        · exact hshape'.maxThreshold
        · rw [hqueue]
          exact hcount
        · show _ = fun c => s.onChannels s.q.queue.contents c ++ s.onChannels (s.newBytes n) c
          rw [← Side.onChannels_append]
          refine Side.onChannels_congr hshape'.numChannels fun c' hc' => ?_
          rw [h.newBytes_eq hm hc]
          show q'.queue.contents c' = _
          rw [hqueue]
          exact hcar.contents_eq (hshape.numChannels.symm ▸ hc')
        · exact Side.onChannels_congr hshape'.numChannels fun _ _ => rfl
        · refine Side.onChannels_congr hshape'.numChannels fun c' _ => ?_
          rw [arrived_eq_nil_of_write h.action hm]
          exact arrived_eq_nil_of_write (s := { s with q := q' }) h.action hm
        · rw [Side.stale]
          dsimp only
          rw [hm']
          dsimp only
          rw [hold, Bool.and_false]
      rw [hend, Side.onChannels_append, hm]
      refine .enqueues (v := s.endpoint) (n := n) ?_ ?_
      · intro c' hc'
        change c' < s.q.queue.numChannels at hc'
        rw [Side.onChannels, if_pos hc', h.newBytes_eq hm hc]
        exact length_slice _ _ _
      · intro c' hc'
        exact if_neg (Nat.not_lt.2 hc')

/-! ### Sending -/

theorem packetCount_of_none (hp : s.packet = none) : s.packetCount = none := by
  rw [Side.packetCount, hp]
  rfl

/-- `SendEnqueuePacket` gives up the lock. -/
theorem beginsPacket (h : SideSound k s) (hact : s.action = .sendLoop) (hcan : s.q.canSendEnqueue = true)
    (hpos : s.q.sendEnqueueCount ≠ 0) :
    ∃ q' p ptrs, s.q.beginSendEnqueue s.q.sendEnqueueCount = .ok (q', p, ptrs) ∧
      Simulated k s inbox peerEnded .sendPass ⟨{ s with q := q', action := .sending p ptrs 0 }, inbox, [.header p]⟩ := by
  obtain ⟨hm, hsent⟩ : s.q.mode = .write ∧ s.q.sentEnd = false := by
    have hat := h.action
    rwa [hact] at hat
  have hp : s.packet = none := by rw [Side.packet, hact]
  have hst := h.stored
  rw [outEnqueue_write hm, outDequeue_write hm, packetCount_of_none hp] at hst
  obtain ⟨hlt, hdead⟩ : s.q.bytecount < s.q.readerlength ∧ s.q.dead = false := by
    simp only [RemoteQueue.canSendEnqueue, Bool.and_eq_true, decide_eq_true_eq, Bool.not_eq_true'] at hcan
    exact ⟨hcan.1.2, hcan.2⟩
  obtain ⟨hc1, hc2, hc3⟩ := RemoteQueue.sendEnqueueCount_le hlt
  obtain ⟨q', p, hok, hframe, hbooks, htype, hcount, hdata⟩ := RemoteQueue.beginSendEnqueue_spec hst hlt hc1 hc2
  -- the length of the packet is the number of bytes sent, unless the product wraps
  have hfull : s.abandons .sendPass = false →
      u32 (s.q.sendEnqueueCount * s.q.queue.numChannels) = s.q.sendEnqueueCount * s.q.queue.numChannels := by
    intro hfits
    rw [Side.abandons, hcan, Bool.true_and, decide_eq_false_iff_not, headerLength] at hfits
    exact u32_of_lt (by omega)
  refine ⟨q', p, _, hok, ?_⟩
  generalize s.q.sendEnqueueCount = n at *
  simp only [RemoteQueue.frame, Frame.mk.injEq] at hframe
  obtain ⟨hm', h1, h2, h3, h4, h5, h6, h7, h8, h9⟩ := hframe
  rw [hm', hm] at h9
  have hmw : q'.mode = .write := hm'.trans hm
  refine ⟨?_, ?_, hm'⟩
  · refine .of_write hmw (e := s.q.nodeOpen) ?_ ?_ (h1.symm ▸ h.numChannels) ?_ h6 ?_ ?_ ?_ ?_
    · simp only [RemoteQueue.nodeOpen, RemoteQueue.nodeIn, RemoteQueue.nodeThresh, RemoteQueue.nodeUseOld, hm', h3, h5,
        h7, hm]
    · show Carries _ q'.queue.contents s.q.nodeOpen (some p.count)
      rw [hcount, h1]
      exact (hst.beginDequeue hc1 hc2 (b := { s.q.toQueueBase with indequeue := true }) rfl rfl).of_eq h1 h2 h3 h4 h5 h6
    · rw [show q'.bytecount = s.q.bytecount from congrArg Books.bytecount hbooks]
      exact h.bytecount
    · refine h.node.congr (by rw [h1]) ?_ ?_ ?_ (by rw [h1])
      · simp only [RemoteQueue.nodeIn, hm', h5, hm]
      · simp only [RemoteQueue.nodeThresh, hm', h7, hm]
      · simp only [RemoteQueue.nodeRequest, hm', hm]
        exact h9
    · refine ⟨hmw, (congrArg Books.sentEnd hbooks).trans hsent, htype, ?_, ?_, ?_, Nat.zero_le _⟩
      · rw [hcount]
        exact Nat.pos_of_ne_zero hpos
      · rw [hdata, hcount, h1]
      · rw [h1]
        refine List.map_congr_left fun c' _ => ?_
        rw [RemoteQueue.actionPtr, hmw]
        simp only [ThresholdQueue.dequeuePtr, ThresholdQueue.dequeueQueue, h1, h2, h4]
    · intro p' hp'
      obtain ⟨g1, g2, g3, g4⟩ := h.ptrs_write hm hp'
      refine ⟨h5.trans g1, h1.symm ▸ g2, h7.symm ▸ g3, g4.trans ?_⟩
      simp only [ThresholdQueue.enqueuePtr, ThresholdQueue.enqueueQueue, h1, h2, h3]
    · intro c' j b hb
      obtain ⟨-, g1, g2⟩ := h.written c' j b hb
      refine ⟨h5.trans g1, ?_⟩
      show (q'.enqueueRegion c' q'.enqueuethresh)[j]? = some b
      rw [h7, ← g2]
      simp only [ThresholdQueue.enqueueRegion, ThresholdQueue.enqueueQueue, h1, h2, h3]
  · have hend : ∀ ptrs, Side.endpoint { s with q := q', action := .sending p ptrs 0 } =
        { s.endpoint with packet := some (p, 0) } := by
      intro ptrs
      refine endpoint_of hbooks (by rw [h1]; rfl) (by rw [h1]; rfl) (by rw [h1]; rfl) (by rw [h1]; rfl) ?_ ?_ rfl ?_ ?_ rfl
      · refine Side.onChannels_congr (by rw [h1]) fun c' _ => ?_
        rw [h1]
      · exact Side.onChannels_congr (by rw [h1]) fun _ _ => rfl
      · refine Side.onChannels_congr (by rw [h1]) fun c' _ => ?_
        rw [arrived_eq_nil hp]
        rfl
      · simp only [Side.endpoint, Side.stale, hm', h3, h5, hm]
    rw [hend, hm]
    refine .begins (v := s.endpoint) hp hsent hdead hlt htype ?_ ?_ ?_ ?_ ?_ fun hfits => ?_
    · rw [hcount]
      exact Nat.pos_of_ne_zero hpos
    · rw [hcount]
      exact hc1
    · rw [hcount]
      exact hc2
    · rw [hcount]
      exact hc3
    · rw [hdata, hcount]
      rfl
    · rw [hdata, hcount, hfull hfits]
      rfl

theorem sendPass (h : SideSound k s) (hact : s.action = .sendLoop) :
    Simulated k s inbox peerEnded .sendPass ⟨s.sendPass.1, inbox, s.sendPass.2.map .header⟩ := by
  by_cases hcan : s.q.canSendEnqueue = true
  · by_cases hzero : s.q.sendEnqueueCount = 0
    · have hpass : s.sendPass = (s, []) := by
        rw [Side.sendPass, if_pos hcan]
        exact if_pos hzero
      rw [hpass]
      exact h.still (.refl s.q)
    · obtain ⟨q', p, ptrs, hok, hsim⟩ := h.beginsPacket hact hcan hzero
      have hpass : s.sendPass = ({ s with q := q', action := .sending p ptrs 0 }, [p]) := by
        rw [Side.sendPass, if_pos hcan]
        refine (if_neg hzero).trans ?_
        rw [hok]
      rw [hpass]
      exact hsim
  · have hm : s.q.mode = .write := by
      have hat := h.action
      rw [hact] at hat
      exact hat.1
    have hp : s.packet = none := by rw [Side.packet, hact]
    have hpass : s.sendPass = ({ s with q := s.q.finishWrite.1, action := .idle }, s.q.finishWrite.2) := by
      rw [Side.sendPass, if_neg hcan]
    rw [hpass]
    obtain ⟨R, hR, hRg⟩ := RemoteQueue.finishWrite_reported hm
    have hR' : RemoteQueue.Reported { s.q with eof := s.q.eof || false } s.q.finishWrite R := by
      rw [Bool.or_false]
      exact hR
    exact h.reported hR' hp rfl trivial (fun he => by cases he) (fun hg => by rw [hRg] at hg; cases hg)

/-- A byte of the packet goes to the socket. -/
theorem send (h : SideSound k s) {p : Packet} {ptrs : List Ptr} {n : Nat} (hact : s.action = .sending p ptrs n)
    (hn : n < p.dataLength) :
    Simulated k s inbox peerEnded .send ⟨(s.send p ptrs n).1, inbox, (s.send p ptrs n).2⟩ := by
  obtain ⟨hm, hsent, hi⟩ : s.q.mode = .write ∧ s.q.sentEnd = false ∧ InPacket s.q p ptrs n := by
    have hat := h.action
    rwa [hact] at hat
  have hp : s.packet = some (p, n) := by rw [Side.packet, hact]
  have hst := h.stored
  rw [outEnqueue_write hm, outDequeue_write hm, Side.packetCount, hp] at hst
  have hchan : n / p.count < s.q.queue.numChannels := hi.chan_lt hn
  have hoff : n % p.count < p.count := Nat.mod_lt _ hi.count
  have hptr : ptrs[n / p.count]? = some (s.q.dequeuePtr (n / p.count)) := by
    rw [hi.ptrs, List.getElem?_map, List.getElem?_range hchan, Option.map_some, RemoteQueue.actionPtr, hm]
  have hlen : p.count ≤ (s.q.queue.contents (n / p.count)).length := by
    rw [hst.holds.length_eq _ hchan]
    exact hst.dequeue_le.1
  have hpeek : s.q.toThresholdQueue.peek (s.q.dequeuePtr (n / p.count)) (n % p.count) =
      (s.q.queue.contents (n / p.count))[n % p.count]? := by
    rw [hst.peek_dequeuePtr hoff hchan, List.getElem?_take_of_lt hoff]
  obtain ⟨b, hb⟩ : ∃ b, (s.q.queue.contents (n / p.count))[n % p.count]? = some b :=
    ⟨_, List.getElem?_eq_getElem (by omega)⟩
  have hsend : s.send p ptrs n = ({ s with action := .sending p ptrs (n + 1) }, [.byte b]) := by
    rw [Side.send, hptr, Option.bind_some, hpeek, hb]
  rw [hsend]
  refine ⟨?_, ?_, rfl⟩
  · refine ⟨?_, h.numChannels, h.bytecount, ?_, h.node, ?_, h.ptrs, h.written⟩
    · have hst' := h.stored
      unfold Side.outEnqueue Side.outDequeue Side.packetCount at hst' ⊢
      rw [hp] at hst'
      exact hst'
    · rw [show s.q.actionIn = _ from h.actionIn, hp]
      rfl
    · exact ⟨hm, hsent, hi.type, hi.count, hi.dataLength, hi.ptrs, hn⟩
  · have hend : Side.endpoint { s with action := .sending p ptrs (n + 1) } =
        { s.endpoint with packet := some (p, n + 1) } := by
      refine endpoint_of rfl rfl rfl rfl rfl rfl rfl rfl (Side.onChannels_congr rfl fun c' _ => ?_) rfl rfl
      rw [arrived_eq_nil_of_write h.action hm]
      rfl
    rw [hend, hm]
    refine .sends (v := s.endpoint) hp hn ?_
    show (s.onChannels s.q.queue.contents (n / p.count))[n % p.count]? = some b
    rw [Side.onChannels, if_pos hchan, hb]

/-- `SendEnqueuePacket` has sent the packet. -/
theorem sent (h : SideSound k s) {p : Packet} {ptrs : List Ptr} (hact : s.action = .sending p ptrs p.dataLength) :
    Simulated k s inbox peerEnded .sent ⟨s.sent p, inbox, []⟩ := by
  obtain ⟨hm, hsent, hi⟩ : s.q.mode = .write ∧ s.q.sentEnd = false ∧ InPacket s.q p ptrs p.dataLength := by
    have hat := h.action
    rwa [hact] at hat
  have hp : s.packet = some (p, p.dataLength) := by rw [Side.packet, hact]
  have hst := h.stored
  rw [outEnqueue_write hm, outDequeue_write hm, Side.packetCount, hp] at hst
  have hfront := RemoteQueue.endSendEnqueue_spec hst
  unfold Side.sent
  generalize s.q.endSendEnqueue p.count = q' at hfront
  obtain ⟨hst', henq, hid, hm', hreq, hshape, hcount, hcontents, hbooks⟩ := hfront
  have hmw : q'.mode = .write := hm'.trans hm
  have hnum := hshape.numChannels
  -- the old ring of the writer is kept exactly while something is open for it
  have hold : s.q.inenqueue = false → q'.enqueueUseOld = s.q.enqueueUseOld := by
    intro hin
    rw [hst'.enqueueUseOld_eq (henq.inenqueue.trans hin), hst.enqueueUseOld_eq hin]
  have hopen : q'.nodeOpen = s.q.nodeOpen := by
    simp only [RemoteQueue.nodeOpen, RemoteQueue.nodeIn, RemoteQueue.nodeThresh, RemoteQueue.nodeUseOld, hmw, hm,
      henq.inenqueue, henq.enqueuethresh]
    cases hin : s.q.inenqueue with
    | true => rfl
    | false => rw [hold hin]
  refine ⟨?_, ?_, hm'⟩
  · refine .of_write hmw hopen hst' (hnum.symm ▸ h.numChannels) ?_ hid ?_ ?_ ?_ ?_
    · rw [show q'.bytecount = u32 (s.q.bytecount + p.count) from congrArg Books.bytecount hbooks]
      exact u32_lt _
    · refine h.node.congr hnum ?_ ?_ ?_ (Nat.le_of_eq hshape.maxThreshold.symm)
      · simp only [RemoteQueue.nodeIn, hm', hm, henq.inenqueue]
      · simp only [RemoteQueue.nodeThresh, hm', hm, henq.enqueuethresh]
      · simp only [RemoteQueue.nodeRequest, hm', hm, hreq]
    · exact ⟨hmw, (congrArg Books.sentEnd hbooks).trans hsent⟩
    · intro p' hp'
      obtain ⟨g1, g2, g3, g4⟩ := h.ptrs_write hm hp'
      exact ⟨henq.inenqueue.trans g1, hnum.symm ▸ g2, henq.enqueuethresh.symm ▸ g3,
        g4.trans (henq.enqueuePtr g1 _).symm⟩
    · intro c' j b hb
      obtain ⟨-, g1, g2⟩ := h.written c' j b hb
      refine ⟨henq.inenqueue.trans g1, ?_⟩
      show (q'.enqueueRegion c' q'.enqueuethresh)[j]? = some b
      rw [henq.enqueueRegion g1, henq.enqueuethresh]
      exact g2
  · have hend : Side.endpoint { s with q := q', action := .sendLoop } =
        { s.endpoint with
          toBooks := { s.q.books with bytecount := u32 (s.q.bytecount + p.count) }
          packet := none
          count := s.q.queue.count - p.count
          stored := fun c => (s.endpoint.stored c).drop p.count } := by
      refine endpoint_of hbooks hshape.queueLength hshape.maxThreshold hnum hcount ?_
        (Side.onChannels_congr hnum fun _ _ => rfl) rfl (Side.onChannels_congr hnum fun c' _ => ?_) ?_ rfl
      · show _ = fun c => (s.onChannels s.q.queue.contents c).drop p.count
        rw [← Side.onChannels_drop]
        exact Side.onChannels_congr hnum hcontents
      · rw [arrived_eq_nil_of_write h.action hm]
        rfl
      · simp only [Side.endpoint, Side.stale, hm', hm, henq.inenqueue]
        cases hin : s.q.inenqueue with
        | true => rfl
        | false => rw [hold hin]
    rw [hend, hm]
    exact .sent (v := s.endpoint) hp rfl

end SideSound

end ProcessNetwork
