import ProcessNetwork.RemoteWriter

/-!
# The side of the reader

The steps that only the side of the reader takes: the passes of `GetRawDequeuePtr`, the bytes the node dequeues, and the
enqueue packets that the action thread receives.  At the end the steps of both sides are put together.
-/

namespace ProcessNetwork

open ThresholdQueue (Carries SameEnqueue SameDequeue)
open RemoteQueue (Still GrewTo)
open ThresholdQueueBase (SameShape)

variable {k : KernelBase} {s : Side} {q : RemoteQueue} {inbox rest : Wire} {peerEnded : Bool} {act : SideAct}
  {t c n : Nat} {grown : Bool} {p : Packet} {ptrs : List Ptr}

namespace SideSound

theorem outEnqueue_read (hm : s.q.mode = .read) : s.outEnqueue = s.packetCount := by
  rw [Side.outEnqueue, hm]

theorem outDequeue_read (hm : s.q.mode = .read) : s.outDequeue = s.q.nodeOpen := by
  rw [Side.outDequeue, hm]

private theorem nodeIn_read (hm : s.q.mode = .read) : s.q.nodeIn = s.q.indequeue := by
  rw [RemoteQueue.nodeIn, hm]

private theorem nodeThresh_read (hm : s.q.mode = .read) : s.q.nodeThresh = s.q.dequeuethresh := by
  rw [RemoteQueue.nodeThresh, hm]

private theorem stale_read (hm : s.q.mode = .read) : s.stale = (!s.q.indequeue && s.q.dequeueUseOld) := by
  rw [Side.stale, hm]

private theorem stale_of_indequeue (hm : s.q.mode = .read) (hin : s.q.indequeue = true) : s.stale = false := by
  rw [stale_read hm, hin]
  rfl

/-- While nothing is left behind, what is open for the reader is its outstanding dequeue. -/
theorem nodeOpen_read (hm : s.q.mode = .read) (hs : s.stale = false) : s.q.nodeOpen = s.q.toQueueBase.outDequeue := by
  rw [stale_read hm] at hs
  rw [RemoteQueue.nodeOpen, nodeIn_read hm, nodeThresh_read hm, RemoteQueue.nodeUseOld, hm, QueueBase.outDequeue]
  cases hin : s.q.indequeue <;> simp_all

theorem nodeOpen_of_indequeue (hm : s.q.mode = .read) (hin : s.q.indequeue = true) :
    s.q.nodeOpen = some s.q.dequeuethresh := by
  rw [RemoteQueue.nodeOpen, nodeIn_read hm, nodeThresh_read hm, if_pos hin]

private theorem inenqueue_read (h : SideSound k s) (hm : s.q.mode = .read) : s.q.inenqueue = s.packet.isSome := by
  have hin := h.actionIn
  rwa [RemoteQueue.actionIn, hm] at hin

theorem ptrs_read (h : SideSound k s) (hm : s.q.mode = .read) {p : HeldPtr} (hp : p ∈ s.ptrs) :
    s.q.indequeue = true ∧ p.chan < s.q.queue.numChannels ∧ p.thresh ≤ s.q.dequeuethresh ∧
      p.ptr = s.q.dequeuePtr p.chan := by
  have hptr := h.ptrs p hp
  rwa [nodeIn_read hm, nodeThresh_read hm, RemoteQueue.nodePtr, hm] at hptr

private theorem written_read (h : SideSound k s) (hm : s.q.mode = .read) (c j : Nat) : s.written c j = none := by
  cases hw : s.written c j with
  | none => rfl
  | some b => exact absurd (hm.symm.trans (h.written c j b hw).1) (by decide)

/-- The invariant in terms of enqueues and dequeues. -/
theorem of_read {d : Option Nat} (hm : s.q.mode = .read) (hd : s.q.nodeOpen = d)
    (hst : s.q.toThresholdQueue.Stored s.packetCount d) (hnum : 0 < s.q.queue.numChannels)
    (hbytes : s.q.bytecount < 2 ^ 32) (hin : s.q.inenqueue = s.packet.isSome) (hnode : NodeAt k s.q s.node)
    (haction : ActionAt s.q s.action)
    (hptrs : ∀ p ∈ s.ptrs, s.q.indequeue = true ∧ p.chan < s.q.queue.numChannels ∧ p.thresh ≤ s.q.dequeuethresh ∧
      p.ptr = s.q.dequeuePtr p.chan)
    (hwritten : ∀ c j, s.written c j = none) : SideSound k s := by
  refine ⟨?_, hnum, hbytes, ?_, hnode, haction, fun p hp => ?_, fun c j b hb => ?_⟩
  · rwa [outEnqueue_read hm, outDequeue_read hm, hd]
  · rwa [RemoteQueue.actionIn, hm]
  · rw [nodeIn_read hm, nodeThresh_read hm, RemoteQueue.nodePtr, hm]
    exact hptrs p hp
  · rw [hwritten] at hb
    cases hb

/-! ### The loop of `GetRawDequeuePtr` -/

/-- The reader gets a pointer. -/
theorem takesDequeuePtr (h : SideSound k s) (hm : s.q.mode = .read) (hn : s.node = .loop t c grown)
    (hs : s.stale = false) (hp : s.q.indequeue = true ∨ t ≤ s.q.queue.count ∧ t ≤ s.q.queue.maxThreshold) :
    Simulated k s inbox peerEnded act
      ⟨{ s with
        q := { s.q with indequeue := true }, node := .idle, ptrs := ⟨c, t, s.q.dequeuePtr c⟩ :: s.ptrs }, inbox, []⟩ := by
  obtain ⟨hc, ht, hask⟩ : c < s.q.queue.numChannels ∧ t < 2 ^ 32 ∧ Asking s.q t := hn ▸ h.node
  rw [Asking, nodeIn_read hm, nodeThresh_read hm] at hask
  have hthresh : t ≤ s.q.dequeuethresh := by
    split_ifs at hask
    · exact hask
    · exact Nat.le_of_eq hask.symm
  have hst := h.stored
  rw [outEnqueue_read hm, outDequeue_read hm, nodeOpen_read hm hs] at hst
  refine ⟨?_, ?_, rfl⟩
  · refine .of_read hm (nodeOpen_of_indequeue hm rfl) ?_ h.numChannels h.bytecount (h.inenqueue_read hm) trivial
      (h.action.congr rfl rfl rfl fun _ => rfl) ?_ (h.written_read hm)
    · show Carries _ _ s.packetCount (some s.q.dequeuethresh)
      by_cases hin : s.q.indequeue = true
      · rw [QueueBase.outDequeue, if_pos hin] at hst
        exact hst.of_eq rfl rfl rfl rfl rfl hin.symm
      · rw [if_neg hin] at hask
        rw [QueueBase.outDequeue, if_neg hin] at hst
        have hp := hp.resolve_left hin
        rw [hask]
        exact hst.beginDequeue hp.1 hp.2 rfl rfl
    · intro p hp
      rcases List.mem_cons.1 hp with rfl | hp
      · exact ⟨rfl, hc, hthresh, rfl⟩
      · exact ⟨rfl, (h.ptrs_read hm hp).2⟩
  · have hend : ∀ ptrs, Side.endpoint { s with q := { s.q with indequeue := true }, node := .idle, ptrs := ptrs } =
        s.endpoint := by
      intro ptrs
      refine endpoint_eq rfl rfl rfl rfl (fun _ => rfl) ?_ rfl
      rw [hs]
      exact stale_of_indequeue hm rfl
    rw [hend]
    exact .quiet

/-- A call of `UnlockedGrow` in the loop of `GetRawDequeuePtr`. -/
theorem passRequest_read (hm : s.q.mode = .read) (hsv : Queue.Starved s.q t) (hsd : s.q.toQueueBase.shutdown = false)
    (hk : k.growQueueMaxThreshold = true) : s.q.passRequest k t grown =
      if s.q.queue.maxThreshold < t then some (u32 (2 * t), t)
      else if Queue.writeBlocked s.q = true then some (u32 (s.q.writerequest + t), t) else none := by
  have href : s.q.refuses t = true := by
    rw [RemoteQueue.refuses, hm]
    simpa using show s.q.indequeue = false ∧ (s.q.queue.count < t ∨ s.q.queue.maxThreshold < t) from hsv
  have hsd : (s.q.readshutdown || s.q.writeshutdown) = false := hsd
  rw [RemoteQueue.passRequest, href, hsd, hk, RemoteQueue.crossed, RemoteQueue.peerRequest, hm]
  rfl

private theorem dequeuePass (h : SideSound k s) (hm : s.q.mode = .read) (hn : s.node = .loop t c grown) :
    Simulated k s inbox peerEnded .pass ⟨s.pass k t c grown, inbox, []⟩ := by
  obtain ⟨hc, ht, hask⟩ : c < s.q.queue.numChannels ∧ t < 2 ^ 32 ∧ Asking s.q t := hn ▸ h.node
  have hpass : Side.passOf k s.q t c grown = (Queue.dequeuePass k s.q t c).map (·, grown) := by rw [Side.passOf, hm]
  by_cases hs : s.stale = true
  · -- the assertion on the ring that was left behind fails
    obtain ⟨hin, hold⟩ : s.q.indequeue = false ∧ s.q.dequeueUseOld = true := by simpa [stale_read hm] using hs
    unfold Side.pass
    rw [hpass, Queue.dequeuePass]
    rw [show (Queue.threshold s.q).internalGetRawDequeuePtr t c = _ from
      ThresholdQueue.internalGetRawDequeuePtr_stale hin hold]
    exact h.fails _ (.inl hs)
  have hs : s.stale = false := by simpa using hs
  have hst := h.stored
  rw [outEnqueue_read hm, outDequeue_read hm, nodeOpen_read hm hs] at hst
  have hdeq : s.q.toQueueBase.Dequeuing t := by
    have hask' := hask
    rwa [Asking, nodeIn_read hm, nodeThresh_read hm] at hask'
  have hnode : ∀ b, s.q.indequeue = b → s.q.nodeIn = b := fun b hb => (nodeIn_read hm).trans hb
  have ho : Queue.DequeueOutcome k s.q t c _ := Queue.dequeuePass_outcome hst hdeq
  generalize hx : Queue.dequeuePass k s.q t c = x at ho
  cases ho with
  | pointer hp =>
    unfold Side.pass
    rw [hpass, hx]
    exact h.takesDequeuePtr hm hn hs hp
  | null hsv hw =>
    unfold Side.pass
    rw [hpass, hx]
    exact h.calmNode (.of_still (.refl s.q)) trivial
  | broken hsv hw hr =>
    unfold Side.pass
    rw [hpass, hx]
    exact h.calmNode (.of_still (.refl s.q)) trivial
  | grows len hsv hsd hk hlen =>
    have hlt : len < 2 ^ 32 := by
      rcases hlen with ⟨-, rfl⟩ | ⟨-, -, rfl⟩
      -- both lengths that are asked for are of 32 bits
      · exact u32_lt _
      · exact u32_lt _
    refine h.growingPass grown hc ht hask (hnode _ hsv.1) hlt hn ?_ (by rw [hpass, hx])
    rw [passRequest_read hm hsv hsd hk]
    rcases hlen with ⟨hmt, rfl⟩ | ⟨hmt, hb, rfl⟩
    · exact if_pos hmt
    · exact (if_neg (Nat.not_lt.2 hmt)).trans (if_pos hb)
  | waits hsv hsd hk =>
    unfold Side.pass
    rw [hpass, hx]
    have hin : s.q.indequeue = false := hsv.1
    have hdeq' := hdeq
    rw [QueueBase.Dequeuing, hin] at hdeq'
    refine h.waitForPeer ⟨⟨t, ?_⟩, rfl⟩ ⟨hc, ht, hnode _ hin, (nodeThresh_read hm).trans hdeq', ?_, fun hk' => (hk hk').1⟩
    · simp only [RemoteQueue.frame, Queue.withBase, Queue.base, Queue.threshold, hm]
    · simp only [RemoteQueue.nodeRequest, Queue.withBase, Queue.base, Queue.threshold, hm]

/-! ### Dequeueing -/

/-- The number of bytes that may be dequeued is open. -/
theorem allowed_le_read (hm : s.q.mode = .read) : s.allowed ≤ s.q.nodeOpen.getD 0 := by
  rw [Side.allowed, hm, RemoteQueue.nodeOpen, nodeIn_read hm, nodeThresh_read hm]
  dsimp only
  split_ifs <;> simp

/-- The dequeue of the reader is over. -/
theorem endDequeue (h : SideSound k s) (hm : s.q.mode = .read) (hn : s.node = .idle) {q' : RemoteQueue} {d : Option Nat}
    {history : Nat → List Byte} (hm' : q'.mode = .read) (hd : q'.nodeOpen = d)
    (hst : q'.toThresholdQueue.Stored s.packetCount d) (hshape : SameShape s.q.queue q'.queue)
    (hie : q'.inenqueue = s.q.inenqueue) (hptr : ∀ c, q'.enqueuePtr c = s.q.enqueuePtr c)
    (hbooks : q'.books = s.q.books) : SideSound k { s with q := q', ptrs := [], history := history } := by
  refine .of_read hm' hd hst (hshape.numChannels.symm ▸ h.numChannels) ?_ ?_ ?_ ?_ ?_ (h.written_read hm)
  · rw [show q'.bytecount = s.q.bytecount from congrArg Books.bytecount hbooks]
    exact h.bytecount
  · exact hie.trans (h.inenqueue_read hm)
  · show NodeAt k q' s.node
    rw [hn]
    trivial
  · refine h.action.congr (hm'.trans hm.symm) (congrArg Books.sentEnd hbooks) hshape.numChannels fun c => ?_
    rw [RemoteQueue.actionPtr, RemoteQueue.actionPtr, hm', hm]
    exact hptr c
  · exact fun p hp => absurd hp List.not_mem_nil

private theorem dequeue (h : SideSound k s) (hm : s.q.mode = .read) (hn : s.node = .idle) (hc : n ≤ s.allowed) :
    Simulated k s inbox peerEnded (.commit n) ⟨s.dequeue n, inbox, []⟩ := by
  have hst := h.stored
  rw [outEnqueue_read hm, outDequeue_read hm] at hst
  have hle := hc.trans (allowed_le_read hm)
  unfold Side.dequeue
  dsimp only
  split_ifs with hsd
  · -- `Dequeue` throws
    have hab := hst.abandonDequeue (b := { s.q.toQueueBase with dequeuethresh := 0, indequeue := false }) rfl rfl
    refine ⟨?_, ?_, rfl⟩
    · refine h.endDequeue hm hn hm ?_ hab (.refl _) rfl (fun _ => rfl) rfl
      rw [RemoteQueue.nodeOpen, RemoteQueue.nodeIn, RemoteQueue.nodeUseOld]
      dsimp only
      rw [hm]
      rfl
    · have hstale : Side.stale { s with q := { s.q with dequeuethresh := 0, indequeue := false }, ptrs := [] } =
          s.abandons (.commit n) := by
        rw [Side.stale, Side.abandons]
        dsimp only
        rw [hm]
        dsimp only
        rw [hsd]
        rfl
      have hend : Side.endpoint { s with q := { s.q with dequeuethresh := 0, indequeue := false }, ptrs := [] } =
          { s.endpoint with stale := s.abandons (.commit n) } := by
        rw [← hstale]
        rfl
      rw [hend]
      exact .throws
  -- `Dequeue` takes the bytes out of the ring; the entry point may be writing to it at the same time
  · obtain ⟨base, hb⟩ : ∃ base, base = ({ s.q.toThresholdQueue with dequeuethresh := 0, indequeue := false } :
      ThresholdQueue).internalDequeue n := ⟨_, rfl⟩
    obtain ⟨hbase, hcar, hshape, hcount, hptr⟩ := hst.internalDequeue hle
      (b := { s.q.toQueueBase with dequeuethresh := 0, indequeue := false }) rfl rfl hb
    obtain ⟨cond, hcond⟩ := RemoteQueue.notifyFreespace_eq { s.q with toThresholdQueue := base }.signal
    obtain ⟨q', hq'⟩ : ∃ q' : RemoteQueue, q' = { ({ s.q with toThresholdQueue := base } : RemoteQueue).signal with
      cond := cond } := ⟨_, rfl⟩
    rw [← hb, hcond, ← hq']
    have hm' : q'.mode = .read := by rw [hq']; exact hm
    have hqueue : q'.queue = base.queue := by rw [hq']; rfl
    have hshape' : SameShape s.q.queue q'.queue := hqueue.symm ▸ hshape
    have hbooks : q'.books = s.q.books := by
      rw [hq']
      simp [RemoteQueue.books, RemoteQueue.signal, hbase]
    have hid : q'.indequeue = false := by
      rw [hq']
      simp [RemoteQueue.signal, hbase]
    have hstored : q'.toThresholdQueue.Stored s.packetCount none := by
      rw [hq']
      exact hcar.stored.of_eq rfl rfl rfl rfl rfl rfl
    have hold : q'.dequeueUseOld = false := hstored.not_useOld_dequeue
    have hregion : ∀ c m, q'.enqueueRegion c m = s.q.enqueueRegion c m := by
      intro c m
      rw [hq']
      exact (hptr c).2 m
    refine ⟨?_, ?_, hm'.trans hm.symm⟩
    · refine h.endDequeue hm hn hm' ?_ hstored hshape' ?_ ?_ hbooks
      · rw [RemoteQueue.nodeOpen, RemoteQueue.nodeIn, RemoteQueue.nodeUseOld, hm']
        dsimp only
        rw [hid, hold]
        rfl
      · rw [hq']
        simp [RemoteQueue.signal, hbase]
      · intro c
        rw [hq']
        exact (hptr c).1
    · have hend : ∀ history : Nat → List Byte,
          Side.endpoint { s with q := q', ptrs := [], history := history } =
            { s.endpoint with
              count := s.q.queue.count - n
              stored := fun c => (s.endpoint.stored c).drop n
              history := s.onChannels history
              stale := false } := by
        intro history
        refine endpoint_of hbooks ?_ ?_ hshape'.numChannels ?_ ?_ ?_ rfl ?_ ?_ rfl
        · exact hshape'.queueLength
        · exact hshape'.maxThreshold
        · rw [hqueue]
          exact hcount
        · show _ = fun c => (s.onChannels s.q.queue.contents c).drop n
          rw [← Side.onChannels_drop]
          refine Side.onChannels_congr hshape'.numChannels fun c' hc' => ?_
          show q'.queue.contents c' = _
          rw [hqueue]
          exact hcar.contents_eq (hshape.numChannels.symm ▸ hc')
        · exact Side.onChannels_congr hshape'.numChannels fun _ _ => rfl
        · refine Side.onChannels_congr hshape'.numChannels fun c' _ => ?_
          unfold Side.arrived
          simp only [hregion]
        · rw [Side.stale]
          dsimp only
          rw [hm']
          dsimp only
          rw [hold, Bool.and_false]
      -- what the node is given is the front of what is stored
      have hhist : (s.onChannels fun c => s.history c ++ s.q.dequeueRegion c n) =
          fun c => s.endpoint.history c ++ (s.endpoint.stored c).take n := by
        show _ = fun c => s.onChannels s.history c ++ (s.onChannels s.q.queue.contents c).take n
        rw [Side.onChannels_append]
        funext c'
        congr 1
        rw [← congrFun (Side.onChannels_take s _ n) c']
        unfold Side.onChannels
        split_ifs with hc'
        · exact hst.dequeueRegion_eq hle hc'
        · rfl
      rw [hend, hm, hhist]
      exact .dequeues (v := s.endpoint) (hle.trans hst.dequeue_le.1)

/-! ### Receiving -/

/-- `EnqueuePacket` gives up the lock. -/
theorem acceptsPacket (h : SideSound k s) {q' : RemoteQueue} (hact : s.action = .reading) (hm : s.q.mode = .read)
    (hp : p.type = .enqueue) (hpos : 0 < p.count) (hdata : p.dataLength = u32 (p.count * s.q.queue.numChannels))
    (hws : s.q.writeshutdown = false) (hacc : RemoteQueue.Accepted s.q s.q.nodeOpen p.count q') :
    Simulated k s (.header p :: rest) peerEnded .readPacket
      ⟨{ s with q := q', action := .receiving p ((List.range s.q.queue.numChannels).map q'.enqueuePtr) 0 }, rest, []⟩ := by
  have hpacket : s.packet = none := by rw [Side.packet, hact]
  have hst := h.stored
  rw [outEnqueue_read hm, outDequeue_read hm, Side.packetCount, hpacket] at hst
  obtain ⟨hst', hdeq, hin, hm', hreq, hnum, hcount, hcontents, overrun, hover, hlen, hbooks⟩ := hacc
  have hmr : q'.mode = .read := hm'.trans hm
  -- when the node holds no pointer, the flag for the old ring stays as it was
  have hold : s.q.indequeue = false → q'.dequeueUseOld = s.q.dequeueUseOld := by
    intro hid
    rw [hst'.dequeueUseOld_eq (hdeq.indequeue.trans hid), hst.dequeueUseOld_eq hid]
  have hopen : q'.nodeOpen = s.q.nodeOpen := by
    simp only [RemoteQueue.nodeOpen, RemoteQueue.nodeIn, RemoteQueue.nodeThresh, RemoteQueue.nodeUseOld, hmr, hm,
      hdeq.indequeue, hdeq.dequeuethresh]
    cases hid : s.q.indequeue with
    | true => rfl
    | false => rw [hold hid]
  have hmt : s.q.queue.maxThreshold ≤ q'.queue.maxThreshold := by
    rcases hlen with ⟨-, -, hmt⟩ | ⟨-, -, hmt⟩
    · exact Nat.le_of_eq hmt.symm
    · rw [hmt]
      exact Nat.le_max_left _ _
  refine ⟨?_, ?_, hm'⟩
  · refine .of_read hmr hopen hst' (hnum.symm ▸ h.numChannels) ?_ hin ?_ ?_ ?_ (h.written_read hm)
    · rw [show q'.bytecount = s.q.bytecount from congrArg Books.bytecount hbooks]
      exact h.bytecount
    · refine h.node.congr hnum ?_ ?_ ?_ hmt
      · simp only [RemoteQueue.nodeIn, hm', hm, hdeq.indequeue]
      · simp only [RemoteQueue.nodeThresh, hm', hm, hdeq.dequeuethresh]
      · simp only [RemoteQueue.nodeRequest, hm', hm, hreq]
    · refine ⟨hmr, hp, hpos, hnum.symm ▸ hdata, ?_, Nat.zero_le _⟩
      rw [hnum]
      refine List.map_congr_left fun c' _ => ?_
      rw [RemoteQueue.actionPtr, hmr]
    · intro p' hp'
      obtain ⟨g1, g2, g3, g4⟩ := h.ptrs_read hm hp'
      exact ⟨hdeq.indequeue.trans g1, hnum.symm ▸ g2, hdeq.dequeuethresh.symm ▸ g3,
        g4.trans (hdeq.dequeuePtr g1 _).symm⟩
  · have hend : ∀ ptrs, Side.endpoint { s with q := q', action := .receiving p ptrs 0 } =
        { s.endpoint with
          toBooks := q'.books
          length := q'.queue.queueLength
          maxThreshold := q'.queue.maxThreshold
          packet := some (p, 0)
          arrived := fun _ => [] } := by
      intro ptrs
      refine endpoint_of rfl rfl rfl hnum hcount (Side.onChannels_congr hnum hcontents)
        (Side.onChannels_congr hnum fun _ _ => rfl) rfl ?_ ?_ rfl
      · funext c'
        simp [Side.onChannels, Side.arrived]
      · simp only [Side.endpoint, Side.stale, hm', hm, hdeq.indequeue]
        cases hid : s.q.indequeue with
        | true => rfl
        | false => rw [hold hid]
    rw [hend, hm, hbooks]
    exact .accepts (v := s.endpoint) rfl hp hpacket ((RemoteQueue.peerShutdown_read hm).trans hws) hover hlen

/-- An enqueue packet. -/
theorem accepts (h : SideSound k s) (hact : s.action = .reading) (hfail : s.failed = none) (hp : p.type = .enqueue)
    (hpos : 0 < p.count) (hdata : p.dataLength = u32 (p.count * s.q.queue.numChannels)) :
    Simulated k s (.header p :: rest) peerEnded .readPacket ⟨s.readPacket k p,
      if (s.readPacket k p).failed = none then rest else .header p :: rest, []⟩ := by
  have hpacket : s.packet = none := by rw [Side.packet, hact]
  have hfails : ∀ fault, s.endpoint.Faulty s.q.mode (.header p :: rest) →
      s.q.beginEnqueuePacket k.malloc p = .error fault →
      Simulated k s (.header p :: rest) peerEnded .readPacket ⟨s.readPacket k p,
        if (s.readPacket k p).failed = none then rest else .header p :: rest, []⟩ := by
    intro fault hf herr
    have hread : s.readPacket k p = s.fail fault := by rw [Side.readPacket, if_pos hp, herr]
    rw [hread, if_neg (by simp [Side.fail])]
    exact h.fails fault hf
  have hunexpected : ¬p.Expected s.q.mode s.endpoint.peerShutdown → s.endpoint.Faulty s.q.mode (.header p :: rest) :=
    fun hne => .inr (.inr ⟨p, rest, rfl, .inl hne⟩)
  by_cases hm : s.q.mode = .read
  · have hst := h.stored
    rw [outEnqueue_read hm, outDequeue_read hm, Side.packetCount, hpacket] at hst
    rcases RemoteQueue.beginEnqueuePacket_cases k.malloc hst h.numChannels p with
      ⟨q', hok, -, hws, hacc⟩ | ⟨hwhy, fault, herr⟩
    · have hread : s.readPacket k p = { s with
          q := q', action := .receiving p ((List.range s.q.queue.numChannels).map q'.enqueuePtr) 0 } := by
        rw [Side.readPacket, if_pos hp, hok]
      rw [hread, if_pos hfail]
      exact h.acceptsPacket hact hm hp hpos hdata hws hacc
    · refine hfails fault ?_ herr
      rcases hwhy with hne | hws | hs | hwrap
      · exact absurd hm hne
      · refine hunexpected ?_
        rw [show s.endpoint.peerShutdown = true from (RemoteQueue.peerShutdown_read hm).trans hws]
        simp [Packet.Expected, hp]
      · exact .inl (h.stale_of_stale hs)
      · exact .inr (.inr ⟨p, rest, rfl, .inr ⟨hp, hwrap⟩⟩)
  · have hm : s.q.mode = .write := by
      cases hmm : s.q.mode with
      | read => exact absurd hmm hm
      | write => rfl
    obtain ⟨fault, herr⟩ : ∃ fault, s.q.beginEnqueuePacket k.malloc p = .error fault := by
      refine ⟨.assert "mode == READ", ?_⟩
      rw [RemoteQueue.beginEnqueuePacket]
      have hmu : (s.q.updateClock p).mode = .write := hm
      simp [hmu, ensure]
      rfl
    refine hfails fault (hunexpected ?_) herr
    rw [hm]
    simp [Packet.Expected, hp]

/-- The part of a region that has arrived, after one more byte. -/
theorem take_set_arrived {l : List Byte} {b : Byte} {m : Nat} (hl : l.length = m) (hm : 0 < m) (c n : Nat) :
    (if c = n / m then l.set (n % m) b else l).take (n + 1 - c * m) =
      if c = n / m then l.take (n - c * m) ++ [b] else l.take (n - c * m) := by
  rcases Framing.channel_cases hm c n with ⟨hc, h1, h2, hlt⟩ | ⟨hc, h1, h2⟩ | ⟨hc, h1, h2⟩
  · rw [if_pos hc, if_pos hc, h1, h2, List.take_add_one, List.take_set_of_le (Nat.le_refl _),
      List.getElem?_set_self (by omega)]
    rfl
  · rw [if_neg hc, if_neg hc, List.take_of_length_le (by omega), List.take_of_length_le (by omega)]
  · rw [if_neg hc, if_neg hc, h1, h2]

private theorem receive (h : SideSound k s) (hact : s.action = .receiving p ptrs n) (hfail : s.failed = none)
    (hn : n < p.dataLength) (b : Byte) :
    Simulated k s (.byte b :: rest) peerEnded .receive ⟨s.receive p ptrs n b,
      if (s.receive p ptrs n b).failed = none then rest else .byte b :: rest, []⟩ := by
  obtain ⟨hm, hi⟩ : s.q.mode = .read ∧ InPacket s.q p ptrs n := by
    have hat := h.action
    rwa [hact] at hat
  have hp : s.packet = some (p, n) := by rw [Side.packet, hact]
  have hst : s.q.toThresholdQueue.Stored (some p.count) s.q.nodeOpen := by
    have hst := h.stored
    rwa [outEnqueue_read hm, outDequeue_read hm, Side.packetCount, hp] at hst
  have hchan : n / p.count < s.q.queue.numChannels := hi.chan_lt hn
  have hoff : n % p.count < p.count := Nat.mod_lt _ hi.count
  have hptr : ptrs[n / p.count]? = some (s.q.enqueuePtr (n / p.count)) := by
    rw [hi.ptrs, List.getElem?_map, List.getElem?_range hchan, Option.map_some, RemoteQueue.actionPtr, hm]
  obtain ⟨base, hok, hcar, hstore⟩ := hst.store hoff (n / p.count) b
  obtain ⟨q', hq'⟩ : ∃ q' : RemoteQueue, q' = { s.q with toThresholdQueue := base } := ⟨_, rfl⟩
  have hrec : s.receive p ptrs n b = { s with q := q', action := .receiving p ptrs (n + 1) } := by
    rw [Side.receive, hptr, hq', Option.bind_some, hok]
  rw [hrec, if_pos hfail]
  have hbase : q'.toThresholdQueue = base := by rw [hq']
  have hmr : q'.mode = .read := by rw [hq']; exact hm
  have hbooks : q'.books = s.q.books := by
    rw [hq']
    simp [RemoteQueue.books, hstore.toQueueBase]
  have hnum : q'.queue.numChannels = s.q.queue.numChannels := by rw [hbase]; exact hstore.queue.numChannels
  have hflags : q'.toQueueBase = s.q.toQueueBase := by rw [hbase]; exact hstore.toQueueBase
  have hst' : q'.toThresholdQueue.Stored (some p.count) s.q.nodeOpen := by
    rw [hbase]
    exact hcar.stored
  -- when the node holds no pointer, the flag for the old ring stays as it was
  have hold : s.q.indequeue = false → q'.dequeueUseOld = s.q.dequeueUseOld := by
    intro hid
    rw [hst'.dequeueUseOld_eq (by rw [hflags]; exact hid), hst.dequeueUseOld_eq hid]
  have hopen : q'.nodeOpen = s.q.nodeOpen := by
    simp only [RemoteQueue.nodeOpen, RemoteQueue.nodeIn, RemoteQueue.nodeThresh, RemoteQueue.nodeUseOld, hmr, hm, hflags]
    cases hid : s.q.indequeue with
    | true => rfl
    | false => rw [hold hid]
  refine ⟨?_, ?_, hmr.trans hm.symm⟩
  · refine .of_read hmr hopen hst' (hnum.symm ▸ h.numChannels) ?_ ?_ ?_ ?_ ?_ (h.written_read hm)
    · rw [show q'.bytecount = s.q.bytecount from congrArg Books.bytecount hbooks]
      exact h.bytecount
    · show q'.inenqueue = true
      rw [hflags, h.inenqueue_read hm, hp]
      rfl
    · refine h.node.congr hnum ?_ ?_ ?_ (by rw [hbase]; exact Nat.le_of_eq hstore.queue.maxThreshold.symm)
      · simp only [RemoteQueue.nodeIn, hmr, hm, hflags]
      · simp only [RemoteQueue.nodeThresh, hmr, hm, hflags]
      · simp only [RemoteQueue.nodeRequest, hmr, hm, hflags]
    · refine ⟨hmr, hi.type, hi.count, hnum.symm ▸ hi.dataLength, ?_, hn⟩
      rw [hi.ptrs, hnum]
      refine List.map_congr_left fun c' _ => ?_
      rw [RemoteQueue.actionPtr, RemoteQueue.actionPtr, hmr, hm, hbase]
      exact (hstore.enqueuePtr c').symm
    · intro p' hp'
      obtain ⟨g1, g2, g3, g4⟩ := h.ptrs_read hm hp'
      rw [hflags, hnum, hbase, hstore.dequeuePtr]
      exact ⟨g1, g2, g3, g4⟩
  · have hend : Side.endpoint { s with q := q', action := .receiving p ptrs (n + 1) } =
        { s.endpoint with
          packet := some (p, n + 1)
          arrived := Function.update s.endpoint.arrived (n / p.count) (s.endpoint.arrived (n / p.count) ++ [b]) } := by
      refine endpoint_of hbooks ?_ ?_ hnum ?_ (Side.onChannels_congr hnum fun c' hc' => ?_)
        (Side.onChannels_congr hnum fun _ _ => rfl) rfl ?_ ?_ rfl
      · rw [hbase]
        exact hstore.queue.queueLength
      · rw [hbase]
        exact hstore.queue.maxThreshold
      · rw [hbase]
        exact hstore.count
      · rw [hbase]
        exact hcar.contents_eq (hstore.queue.numChannels.symm ▸ hc')
      · have harr : ∀ c', s.arrived c' = (s.q.enqueueRegion c' p.count).take (n - c' * p.count) := by
          intro c'
          rw [Side.arrived, hact]
        funext c'
        show (if c' < q'.queue.numChannels then (q'.enqueueRegion c' p.count).take (n + 1 - c' * p.count) else []) =
          Function.update (s.onChannels s.arrived) (n / p.count) (s.onChannels s.arrived (n / p.count) ++ [b]) c'
        rw [Function.update_apply, hnum]
        by_cases hc' : c' < s.q.queue.numChannels
        · have hlen : (s.q.enqueueRegion c' p.count).length = p.count := length_slice _ _ _
          rw [if_pos hc', hbase, hstore.enqueueRegion c' _ (Nat.le_refl _), take_set_arrived hlen hi.count]
          simp only [Side.onChannels, hchan, hc', if_true, harr]
          split_ifs with heq
          · rw [heq]
          · rfl
        · rw [if_neg hc', if_neg (by omega), Side.onChannels, if_neg hc']
      · simp only [Side.endpoint, Side.stale, hmr, hm, hflags]
        cases hid : s.q.indequeue with
        | true => rfl
        | false => rw [hold hid]
    rw [hend, hm]
    exact .receives (v := s.endpoint) rfl hp hn

/-- `EnqueuePacket` has received the packet. -/
theorem received (h : SideSound k s) (hact : s.action = .receiving p ptrs p.dataLength) :
    Simulated k s inbox peerEnded .received ⟨s.received p, inbox, []⟩ := by
  obtain ⟨hm, hi⟩ : s.q.mode = .read ∧ InPacket s.q p ptrs p.dataLength := by
    have hat := h.action
    rwa [hact] at hat
  have hp : s.packet = some (p, p.dataLength) := by rw [Side.packet, hact]
  have hst := h.stored
  rw [outEnqueue_read hm, outDequeue_read hm, Side.packetCount, hp] at hst
  obtain ⟨q', hok, hst', hdeq, hin, hm', hreq, hshape, hcount, hcontents, hbooks⟩ :=
    RemoteQueue.endEnqueuePacket_spec hst
  rw [Side.received, hok]
  dsimp only
  have hmr : q'.mode = .read := hm'.trans hm
  have hnum := hshape.numChannels
  have hold : s.q.indequeue = false → q'.dequeueUseOld = s.q.dequeueUseOld := by
    intro hid
    rw [hst'.dequeueUseOld_eq (hdeq.indequeue.trans hid), hst.dequeueUseOld_eq hid]
  have hopen : q'.nodeOpen = s.q.nodeOpen := by
    simp only [RemoteQueue.nodeOpen, RemoteQueue.nodeIn, RemoteQueue.nodeThresh, RemoteQueue.nodeUseOld, hmr, hm,
      hdeq.indequeue, hdeq.dequeuethresh]
    cases hid : s.q.indequeue with
    | true => rfl
    | false => rw [hold hid]
  refine ⟨?_, ?_, hm'⟩
  · refine .of_read hmr hopen hst' (hnum.symm ▸ h.numChannels) ?_ hin ?_ trivial ?_ (h.written_read hm)
    · rw [show q'.bytecount = u32 (s.q.bytecount + p.count) from congrArg Books.bytecount hbooks]
      exact u32_lt _
    · refine h.node.congr hnum ?_ ?_ ?_ (Nat.le_of_eq hshape.maxThreshold.symm)
      · simp only [RemoteQueue.nodeIn, hm', hm, hdeq.indequeue]
      · simp only [RemoteQueue.nodeThresh, hm', hm, hdeq.dequeuethresh]
      · simp only [RemoteQueue.nodeRequest, hm', hm, hreq]
    · intro p' hp'
      obtain ⟨g1, g2, g3, g4⟩ := h.ptrs_read hm hp'
      exact ⟨hdeq.indequeue.trans g1, hnum.symm ▸ g2, hdeq.dequeuethresh.symm ▸ g3,
        g4.trans (hdeq.dequeuePtr g1 _).symm⟩
  · have hend : Side.endpoint { s with q := q', action := .reading } =
        { s.endpoint with
          toBooks := { s.q.books with bytecount := u32 (s.q.bytecount + p.count) }
          packet := none
          arrived := fun _ => []
          count := s.q.queue.count + p.count
          stored := fun c => s.endpoint.stored c ++ s.onChannels (fun c => s.q.enqueueRegion c p.count) c } := by
      refine endpoint_of hbooks hshape.queueLength hshape.maxThreshold hnum hcount ?_
        (Side.onChannels_congr hnum fun _ _ => rfl) rfl ?_ ?_ rfl
      · show _ = fun c => s.onChannels s.q.queue.contents c ++ s.onChannels (fun c => s.q.enqueueRegion c p.count) c
        rw [← Side.onChannels_append]
        exact Side.onChannels_congr hnum hcontents
      · funext c'
        simp [Side.onChannels, Side.arrived]
      · simp only [Side.endpoint, Side.stale, hm', hm, hdeq.indequeue]
        cases hid : s.q.indequeue with
        | true => rfl
        | false => rw [hold hid]
    rw [hend, hm]
    refine .received (v := s.endpoint) hp rfl fun hdata => Side.onChannels_congr rfl fun c' hc' => ?_
    -- all bytes of the channel have arrived
    have hall : (c' + 1) * p.count ≤ s.q.queue.numChannels * p.count := Nat.mul_le_mul_right _ hc'
    change p.dataLength = p.count * s.q.queue.numChannels at hdata
    rw [Nat.add_mul] at hall
    rw [Nat.mul_comm] at hdata
    rw [Side.arrived, hact]
    dsimp only
    rw [List.take_of_length_le]
    rw [ThresholdQueue.enqueueRegion, ThresholdQueueBase.enqueueRegion, length_slice]
    omega

/-! ### All steps -/

/-- The payload of an enqueue packet has the same number of bytes for each channel. -/
def WellFormed (numChannels : Nat) (wire : Wire) : Prop :=
  ∀ p, .header p ∈ wire → p.type = .enqueue → 0 < p.count ∧ p.dataLength = u32 (p.count * numChannels)

private theorem pass (h : SideSound k s) (hn : s.node = .loop t c grown) :
    Simulated k s inbox peerEnded .pass ⟨s.pass k t c grown, inbox, []⟩ := by
  cases hm : s.q.mode with
  | read => exact h.dequeuePass hm hn
  | write => exact h.enqueuePass hm hn

private theorem commit (h : SideSound k s) (hn : s.node = .idle) (hc : n ≤ s.allowed) :
    Simulated k s inbox peerEnded (.commit n) ⟨s.commit n, inbox, []⟩ := by
  unfold Side.commit
  cases hm : s.q.mode with
  | read => exact h.dequeue hm hn hc
  | write => exact h.enqueue hm hn hc

private theorem detect (h : SideSound k s) (hm : s.q.mode = .write) (hn : s.node = .waitLocal t c grown) :
    Simulated k s inbox peerEnded .detect ⟨s.detect k (.waitLocal t c grown), inbox, []⟩ := by
  have hw : Waiting k s.q t c := by
    have hat := h.node
    rwa [hn] at hat
  have hreq : s.q.writerequest = t := by
    have := hw.nodeRequest
    rwa [RemoteQueue.nodeRequest, hm] at this
  exact h.nodeGrow rfl hw.nodeIn (u32_lt _) (hreq.symm ▸ hw.thresh) hw

/-- Every step of a side keeps the invariant and is a step of the protocol. -/
theorem next (h : SideSound k s) (hwire : WellFormed s.q.queue.numChannels inbox) {r : SideStep}
    (hr : sideNext k s inbox peerEnded act = some r) : Simulated k s inbox peerEnded act r := by
  cases sideMove_of_sideNext hr with
  | getRawPtr _ _ hc ht => exact h.getRawPtr hc ht
  | pass hn => exact h.pass hn
  | wakes => exact h.wakes
  | @write p off b hm hp hoff => exact h.write hm b hp hoff
  | commit _ hn hc => exact h.commit hn hc
  | grow _ _ hin hlen hmt => exact h.nodeGrow rfl hin hlen hmt trivial
  | shutdown => exact h.shutdown
  | detect hn _ hm => exact h.detect hm hn
  | deadlock => exact h.calmNode (.of_still (RemoteQueue.still_signal s.q)) trivial
  | tagChanged => exact h.still ⟨rfl, rfl⟩
  | tick => exact h.still (RemoteQueue.still_signal s.q)
  | check hact => exact h.check hact
  | @readPacket p rest hin hfail hact =>
    subst hin
    by_cases hp : p.type = .enqueue
    · obtain ⟨hpos, hdata⟩ := hwire p List.mem_cons_self hp
      exact h.accepts hact hfail hp hpos hdata
    · exact h.fires hact hfail hp
  | readDone hact heof => exact h.readDone hact heof
  | @receive p ptrs n b rest hin hact hfail hn =>
    subst hin
    exact h.receive hact hfail hn b
  | received hact => exact h.received hact
  | sendPass hact => exact h.sendPass hact
  | send hact hn => exact h.send hact hn
  | sent hact => exact h.sent hact

end SideSound

end ProcessNetwork
