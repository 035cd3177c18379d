import ProcessNetwork.RemoteDuty
import ProcessNetwork.RemoteTranscript

/-!
# The logical clocks

Each side counts with a clock of its own, stamps its packets with it, and remembers the stamp of the last packet that it
has processed.  A packet carries that too, so each side learns which of its own packets the other one has processed: the
echo of its clock.  `ClockStep` says what a step does to the clocks; `Causal` says that the echoes on their way back to a
side are stamps of packets that have been processed, in order.

`WaitForData` and `WaitForFreespace` wait for an echo of a time after the call.  When it arrives, a packet that was sent
after the call has been processed (`clock_echo`).
-/

namespace ProcessNetwork

open Framing (headers headers_append headers_map)

/-- The field of a packet for the clock of a side. -/
def Packet.clockOf (p : Packet) : Mode → Nat
  | .read => p.readclock
  | .write => p.writeclock

/-- The clock of a side as remembered by a queue. -/
def RemoteQueue.remembered (q : RemoteQueue) : Mode → Nat
  | .read => q.readclock
  | .write => q.writeclock

/-- The packets are stamped by the side `m` one after the other, at the time `clock`, with the clock `peer` of the other
side. -/
def Stamped (m : Mode) (peer : Nat) : Nat → List Packet → Prop
  | _, [] => True
  | clock, p :: ps => p.clockOf m = clock + 1 ∧ p.clockOf m.other = peer ∧ Stamped m peer (clock + 1) ps

/-- What a step of the side `m` does to its clocks, with the packets it takes and sends. -/
inductive ClockStep (m : Mode) (q q' : RemoteQueue) : List Packet → List Packet → Prop
  | still : q'.clocks = q.clocks → ClockStep m q q' [] []
  | sends {ps : List Packet} : Stamped m (q.remembered m.other) q.clock ps → q'.clock = q.clock + ps.length →
      q'.remembered = q.remembered → ClockStep m q q' [] ps
  | takes {p : Packet} : q'.remembered = p.clockOf → q.clock < q'.clock → p.clockOf m.other < q'.clock →
      ClockStep m q q' [p] []

variable {k : KernelBase} {arithmetic : Arithmetic} {q q' : RemoteQueue} {m : Mode} {p : Packet} {ps ps' : List Packet}
  {clock peer : Nat} {s : Side}

private theorem Stamped.append (h : Stamped m peer clock ps) (h' : Stamped m peer (clock + ps.length) ps') :
    Stamped m peer clock (ps ++ ps') := by
  induction ps generalizing clock with
  | nil => exact h'
  | cons p ps ih =>
    refine ⟨h.1, h.2.1, ih h.2.2 ?_⟩
    rwa [List.length_cons, Nat.add_comm ps.length, ← Nat.add_assoc] at h'

private theorem Stamped.lt_clockOf (h : Stamped m peer clock ps) (hp : p ∈ ps) : clock < p.clockOf m := by
  induction ps generalizing clock with
  | nil => cases hp
  | cons p' ps ih =>
    rcases List.mem_cons.1 hp with rfl | hp
    · rw [h.1]
      exact Nat.lt_succ_self _
    · exact (Nat.lt_succ_self _).trans (ih h.2.2 hp)

private theorem Stamped.clockOf_le (h : Stamped m peer clock ps) (hp : p ∈ ps) : p.clockOf m ≤ clock + ps.length := by
  induction ps generalizing clock with
  | nil => cases hp
  | cons p' ps ih =>
    rw [List.length_cons]
    rcases List.mem_cons.1 hp with rfl | hp
    · rw [h.1]
      omega
    · have := ih h.2.2 hp
      omega

private theorem Stamped.pairwise (h : Stamped m peer clock ps) : ps.Pairwise fun p p' => p.clockOf m < p'.clockOf m := by
  induction ps generalizing clock with
  | nil => exact .nil
  | cons p ps ih => exact .cons (fun p' hp' => h.1 ▸ h.2.2.lt_clockOf hp') (ih h.2.2)

private theorem Stamped.clockOf_other (h : Stamped m peer clock ps) (hp : p ∈ ps) : p.clockOf m.other = peer := by
  induction ps generalizing clock with
  | nil => cases hp
  | cons p' ps ih =>
    rcases List.mem_cons.1 hp with rfl | hp
    · exact h.2.1
    · exact ih h.2.2 hp

/-! ### Sections -/

namespace RemoteQueue

private theorem remembered_of_clocks (h : q'.clocks = q.clocks) : q'.remembered = q.remembered := by
  simp only [clocks, Prod.mk.injEq] at h
  funext m
  cases m
  · exact h.2.1
  · exact h.2.2

/-- The section `r`, run on `q`, stamps the packets that it sends. -/
structure Ticks (q : RemoteQueue) (r : Sends) : Prop where
  mode : r.1.mode = q.mode
  stamped : Stamped q.mode (q.remembered q.mode.other) q.clock r.2
  clock : r.1.clock = q.clock + r.2.length
  remembered : r.1.remembered = q.remembered

private theorem Ticks.nil (hm : q'.mode = q.mode) (hc : q'.clocks = q.clocks) : Ticks q (q', []) :=
  ⟨hm, trivial, congrArg Prod.fst hc, remembered_of_clocks hc⟩

private theorem Ticks.andThen {r : Sends} {f : RemoteQueue → Sends} (h : Ticks q r) (hf : Ticks r.1 (f r.1)) :
    Ticks q (r.andThen f) := by
  obtain ⟨h1, h2, h3, h4⟩ := h
  obtain ⟨g1, g2, g3, g4⟩ := hf
  rw [h1, h3, h4] at g2
  refine ⟨g1.trans h1, h2.append g2, ?_, g4.trans h4⟩
  show (f r.1).1.clock = q.clock + (r.2 ++ (f r.1).2).length
  rw [g3, h3, List.length_append, Nat.add_assoc]

/-- A packet that went through `SetupPacket`, whose other fields may have been set since. -/
theorem ticks_setupPacket {r : RemoteQueue × Packet} (p : Packet)
    (hq : (r.1.mode, r.1.clocks) = ((q.setupPacket p).1.mode, (q.setupPacket p).1.clocks))
    (hp : r.2.clockOf = (q.setupPacket p).2.clockOf) : Ticks q (r.1, [r.2]) := by
  simp only [Prod.mk.injEq] at hq
  have hset : (q.setupPacket p).1.mode = q.mode ∧ (q.setupPacket p).1.clocks = (q.clock + 1, q.readclock, q.writeclock) ∧
      (q.setupPacket p).2.clockOf q.mode = q.clock + 1 ∧
      (q.setupPacket p).2.clockOf q.mode.other = q.remembered q.mode.other := by
    unfold setupPacket
    cases q.mode <;> exact ⟨rfl, rfl, rfl, rfl⟩
  obtain ⟨h1, h2, h3, h4⟩ := hset
  have hclocks := hq.2.trans h2
  simp only [clocks, Prod.mk.injEq] at hclocks
  refine ⟨hq.1.trans h1, ⟨by rw [hp, h3], by rw [hp, h4], trivial⟩, hclocks.1, ?_⟩
  funext m
  cases m
  · exact hclocks.2.1
  · exact hclocks.2.2

private theorem ticks_sendIf {send : RemoteQueue → RemoteQueue × Packet} {done : RemoteQueue → RemoteQueue} (b : Bool)
    (h : Ticks q (done (send q).1, [(send q).2])) : Ticks q (q.sendIf b send done) := by
  unfold sendIf
  cases b with
  | true => exact h
  | false => exact .nil rfl rfl

/-- A packet of a section, after which flags are set. -/
theorem ticks_packet {send : RemoteQueue → RemoteQueue × Packet} {done : RemoteQueue → RemoteQueue} (p : Packet) (b : Bool)
    (hq : ((done (send q).1).mode, (done (send q).1).clocks) = ((q.setupPacket p).1.mode, (q.setupPacket p).1.clocks))
    (hp : (send q).2.clockOf = (q.setupPacket p).2.clockOf) : Ticks q (q.sendIf b send done) :=
  ticks_sendIf b (ticks_setupPacket (r := (done (send q).1, (send q).2)) p hq hp)

private theorem ticks_sendPendingGrow (q : RemoteQueue) : Ticks q q.sendPendingGrow :=
  ticks_packet (.init 0 .grow) _ rfl rfl

private theorem ticks_sendPendingBlock (q : RemoteQueue) : Ticks q q.sendPendingBlock := by
  unfold sendPendingBlock
  split_ifs
  · split
    · exact (ticks_packet (.init 0 .readBlock) _ rfl rfl).andThen (.nil rfl rfl)
    · exact (ticks_packet (.init 0 .writeBlock) _ rfl rfl).andThen (.nil rfl rfl)
  · exact .nil rfl rfl

private theorem ticks_sendPendingD4RTag (q : RemoteQueue) : Ticks q q.sendPendingD4RTag := by
  unfold sendPendingD4RTag
  exact ticks_packet (.init 0 .d4rTag) _ rfl rfl

private theorem Ticks.of_fields {p' : Packet} (h : Ticks q (q', [p])) {q2 : RemoteQueue} (h1 : q2.mode = q'.mode)
    (h2 : q2.clock = q'.clock) (h3 : q2.readclock = q'.readclock) (h4 : q2.writeclock = q'.writeclock)
    (h5 : p'.readclock = p.readclock) (h6 : p'.writeclock = p.writeclock) : Ticks q (q2, [p']) := by
  obtain ⟨g1, ⟨g2, g3, -⟩, g4, g5⟩ := h
  have hp : p'.clockOf = p.clockOf := by
    funext m
    cases m
    · exact h5
    · exact h6
  refine ⟨h1.trans g1, ⟨by rw [hp, g2], by rw [hp, g3], trivial⟩, h2.trans g4, ?_⟩
  refine Eq.trans ?_ g5
  funext m
  cases m
  · exact h3
  · exact h4

private theorem ticks_sendDequeue (q : RemoteQueue) (b : Bool) : Ticks q (q.sendIf b sendDequeuePacket id) := by
  have h : Ticks q ((q.setupPacket (.init 0 .dequeue)).1, [(q.setupPacket (.init 0 .dequeue)).2]) :=
    ticks_setupPacket _ rfl rfl
  refine ticks_sendIf b ?_
  unfold sendDequeuePacket
  generalize q.setupPacket (.init 0 .dequeue) = r at h ⊢
  -- the counts do not matter, and must not be computed
  generalize sub32 q.bytecount q.queue.count = count
  generalize (q.wrapped || decide (q.bytecount < q.queue.count)) = wrapped
  dsimp only [id]
  generalize sub32 r.1.bytecount count = bytecount
  exact h.of_fields rfl rfl rfl rfl rfl rfl

/-- The end of the handshake. -/
private theorem ticks_close (q : RemoteQueue) (b : Bool) (type : PacketType) :
    Ticks q (if b then (q.sendIf (!q.sentEnd) (fun q => q.setupPacket (.init 0 type)) fun q =>
      { q with sentEnd := true }).andThen fun q => (q.close, []) else (q, [])) := by
  split_ifs
  · exact (ticks_packet (.init 0 type) _ rfl rfl).andThen (.nil rfl rfl)
  · exact .nil rfl rfl

private theorem ticks_finishRead (q : RemoteQueue) : Ticks q q.finishRead := by
  unfold finishRead
  have h : Ticks q (if q.sentEnd then (q, []) else
      (((q.sendIf (q.bytecount > q.queue.count) sendDequeuePacket id).andThen sendPendingBlock).andThen
        sendPendingD4RTag).andThen fun q =>
          q.sendIf q.readshutdown sendEndOfReadPacket fun q => { q with sentEnd := true }) := by
    split_ifs
    · exact .nil rfl rfl
    · exact (((ticks_sendDequeue q _).andThen (ticks_sendPendingBlock _)).andThen (ticks_sendPendingD4RTag _)).andThen
        (ticks_packet (.init 0 .endOfRead) _ rfl rfl)
  exact h.andThen (ticks_close _ _ .endOfRead)

private theorem ticks_finishWrite (q : RemoteQueue) : Ticks q q.finishWrite := by
  unfold finishWrite
  by_cases hd : (!q.sentEnd && q.dead) = true
  · rw [if_pos hd]
    exact .nil rfl rfl
  · rw [if_neg hd]
    dsimp only
    have h : Ticks q (if q.sentEnd then (q, []) else q.sendPendingBlock.andThen sendPendingD4RTag) := by
      split_ifs
      · exact .nil rfl rfl
      · exact (ticks_sendPendingBlock q).andThen (ticks_sendPendingD4RTag _)
    refine Ticks.andThen (h.andThen ?_) (ticks_close _ _ .endOfWrite)
    exact ticks_packet (.init 0 .endOfWrite) _ rfl rfl

private theorem ticks_beginSendEnqueue {count : Nat} {ptrs : List Ptr} (h : q.beginSendEnqueue count = .ok (q', p, ptrs)) :
    Ticks q (q', [p]) := by
  cases hm : q.mode <;>
  · simp only [beginSendEnqueue, setupPacket, hm] at h
    obtain ⟨ptrs', -, h⟩ := bind_eq_ok h
    cases h
    refine ⟨hm.symm, ?_, rfl, rfl⟩
    rw [hm]
    exact ⟨rfl, rfl, trivial⟩

/-! ### Packets that are processed -/

theorem takes_updateClock (q : RemoteQueue) (p : Packet) : ClockStep q.mode q (q.updateClock p) [p] [] := by
  unfold updateClock
  cases q.mode
  · refine .takes (funext fun m => by cases m <;> rfl) ?_ ?_
    · exact Nat.lt_succ_of_le (Nat.le_max_right _ _)
    · exact Nat.lt_succ_of_le (Nat.le_max_left _ _)
  · refine .takes (funext fun m => by cases m <;> rfl) ?_ ?_
    · exact Nat.lt_succ_of_le (Nat.le_max_right _ _)
    · exact Nat.lt_succ_of_le (Nat.le_max_left _ _)

/-- After `UpdateClock` a handler leaves the clocks alone. -/
theorem takes_of_clocks (h : q'.clocks = (q.updateClock p).clocks) : ClockStep q.mode q q' [p] [] := by
  have hr := remembered_of_clocks h
  have hc : q'.clock = (q.updateClock p).clock := congrArg Prod.fst h
  cases takes_updateClock q p with
  | takes h1 h2 h3 => exact .takes (hr.trans h1) (hc ▸ h2) (hc ▸ h3)

private theorem takes_firePacket (h : q.firePacket k p = .ok q') : ClockStep q.mode q q' [p] [] := by
  refine takes_of_clocks ?_
  unfold firePacket at h
  cases ht : p.type with
  | enqueue => simp [ht] at h
  | idReader => simp [ht] at h
  | idWriter => simp [ht] at h
  | d4rTag =>
    simp only [ht, Except.ok.injEq] at h
    exact h ▸ rfl
  | grow =>
    simp only [ht] at h
    obtain ⟨base, -, h⟩ := bind_eq_ok h
    cases h
    rfl
  | _ =>
    simp only [ht] at h
    have h := ensure_bind_eq_ok (ensure_bind_eq_ok h)
    cases h
    rfl

private theorem takes_beginEnqueuePacket {malloc : Malloc} {ptrs : List Ptr}
    (h : q.beginEnqueuePacket malloc p = .ok (q', ptrs)) : ClockStep q.mode q q' [p] [] := by
  refine takes_of_clocks ?_
  obtain ⟨_, -, h⟩ := bind_eq_ok h
  obtain ⟨_, -, h⟩ := bind_eq_ok h
  obtain ⟨base, -, h⟩ := bind_eq_ok h
  obtain ⟨ptrs, -, h⟩ := bind_eq_ok h
  cases h
  rfl

end RemoteQueue

/-! ### Steps of a side -/

namespace ClockStep

private theorem of_ticks {r : RemoteQueue.Sends} (h : q.Ticks r) : ClockStep q.mode q r.1 [] r.2 :=
  .sends h.stamped h.clock h.remembered

/-- The packet at the front of the inbox is processed, unless its handler fails. -/
private theorem of_readPacket {inbox rest : Wire} (hin : inbox = .header p :: rest) (hfail : s.failed = none) :
    ClockStep s.q.mode s.q (s.readPacket k p).q
      (headers ((⟨s.readPacket k p, if (s.readPacket k p).failed = none then rest else inbox, []⟩ : SideStep).taken inbox))
      [] := by
  have htake : headers ((⟨s.readPacket k p, rest, []⟩ : SideStep).taken inbox) = [p] := by
    rw [hin, SideStep.taken, List.length_cons, Nat.add_sub_cancel_left]
    rfl
  have hkeep : headers ((⟨s.readPacket k p, inbox, []⟩ : SideStep).taken inbox) = [] := by
    rw [SideStep.taken, Nat.sub_self]
    rfl
  unfold Side.readPacket at htake hkeep ⊢
  by_cases ht : p.type = .enqueue
  · rw [if_pos ht] at htake hkeep ⊢
    cases hb : s.q.beginEnqueuePacket k.malloc p with
    | error fault =>
      rw [hb] at hkeep
      rw [if_neg (by simp [Side.fail])]
      rw [hkeep]
      exact .still rfl
    | ok r =>
      rw [hb] at htake
      dsimp only at htake ⊢
      rw [if_pos hfail, htake]
      exact RemoteQueue.takes_beginEnqueuePacket hb
  · rw [if_neg ht] at htake hkeep ⊢
    cases hf : s.q.firePacket k p with
    | error fault =>
      rw [hf] at hkeep
      rw [if_neg (by simp [Side.fail])]
      rw [hkeep]
      exact .still rfl
    | ok q' =>
      rw [hf] at htake
      dsimp only at htake ⊢
      rw [if_pos hfail, htake]
      exact RemoteQueue.takes_firePacket hf

private theorem of_readDone (eof : Bool) : ClockStep s.q.mode s.q (s.readDone eof).1.q [] (s.readDone eof).2 := by
  have h : RemoteQueue.Ticks s.q ({ s.q with eof := s.q.eof || eof } : RemoteQueue).sendPendingGrow := by
    obtain ⟨h1, h2, h3, h4⟩ := RemoteQueue.ticks_sendPendingGrow { s.q with eof := s.q.eof || eof }
    exact ⟨h1, h2, h3, h4⟩
  unfold Side.readDone
  dsimp only
  generalize RemoteQueue.sendPendingGrow _ = r at h ⊢
  split
  · exact of_ticks (h.andThen (RemoteQueue.ticks_finishRead _))
  · split_ifs
    · exact of_ticks (h.andThen (RemoteQueue.ticks_finishWrite _))
    · exact of_ticks h

/-- What a step of a side does to its clocks. -/
theorem of_next {inbox : Wire} {peerEnded : Bool} {act : SideAct} {r : SideStep}
    (hn : sideNext k s inbox peerEnded act = some r) :
    ClockStep s.q.mode s.q r.side.q (headers (r.taken inbox)) (headers r.sent) := by
  -- most steps take no packet and send none, and leave the clocks
  have hkeep : ∀ t sent, headers ((⟨t, inbox, sent⟩ : SideStep).taken inbox) = [] := by
    intro t sent
    rw [SideStep.taken, Nat.sub_self]
    rfl
  have hstir : ∀ t, Side.Stirring s t →
      ClockStep s.q.mode s.q t.q (headers ((⟨t, inbox, []⟩ : SideStep).taken inbox)) [] := by
    intro t ht
    rw [hkeep]
    exact .still ht.queue.clocks
  cases sideMove_of_sideNext hn with
  | getRawPtr => exact hstir _ Side.stirring_getRawPtr
  | pass => exact hstir _ Side.stirring_pass
  | wakes => exact hstir _ Side.stirring_wakes
  | write => exact hstir _ Side.stirring_write
  | commit => exact hstir _ Side.stirring_commit
  | grow => exact hstir _ Side.stirring_nodeGrow
  | shutdown => exact hstir _ Side.stirring_shutdown
  | detect => exact hstir _ Side.stirring_nodeGrow
  | deadlock => exact hstir { s with q := s.q.signal, node := .idle } ⟨rfl, rfl, rfl, .inr rfl⟩
  | tagChanged => exact hstir { s with q := { s.q with pendingD4RTag := true }.signal } ⟨rfl, rfl, rfl, .inr rfl⟩
  | tick => exact hstir { s with q := s.q.signal } ⟨rfl, rfl, rfl, .inr rfl⟩
  | check =>
    rw [hkeep]
    refine .still ?_
    unfold Side.check
    dsimp only
    split_ifs <;> rfl
  | readPacket hin hfail => exact of_readPacket hin hfail
  | @readDone eof =>
    rw [hkeep, headers_map]
    exact of_readDone eof
  | @receive p ptrs n b rest hin =>
    have htake : headers ((⟨s.receive p ptrs n b, if (s.receive p ptrs n b).failed = none then rest else inbox,
        []⟩ : SideStep).taken inbox) = [] := by
      split_ifs
      · rw [hin, SideStep.taken, List.length_cons, Nat.add_sub_cancel_left]
        rfl
      · exact hkeep _ _
    rw [htake]
    refine .still ?_
    unfold Side.receive
    split <;> rfl
  | @received p =>
    rw [hkeep]
    refine .still ?_
    unfold Side.received
    split
    · rfl
    · rename_i q' hq
      obtain ⟨base, -, hq⟩ := bind_eq_ok hq
      cases hq
      exact (RemoteQueue.quiet_notifyData _).clocks
  | sendPass =>
    rw [hkeep, headers_map]
    rcases s.sendPass_cases with ⟨-, heq | ⟨fault, -, heq⟩ | ⟨q, p, ptrs, hb, heq⟩⟩ | ⟨-, heq⟩
    · rw [heq]
      exact .still rfl
    · rw [heq]
      exact .still rfl
    · rw [heq]
      exact of_ticks (r := (q, [p])) (RemoteQueue.ticks_beginSendEnqueue hb)
    · rw [heq]
      exact of_ticks (RemoteQueue.ticks_finishWrite s.q)
  | @send p ptrs n =>
    rw [hkeep]
    unfold Side.send
    split <;> exact .still rfl
  | sent =>
    rw [hkeep]
    exact .still (RemoteQueue.quiet_notifyFreespace _).clocks

end ClockStep

/-! ### The first loop of the waiting methods -/

/-- The places to which the node goes on from `UnlockedGrow`. -/
def NodePc.outside : NodePc → Bool
  | .waitRemote .. => false
  | .growing .. => false
  | _ => true

/-- The node does not go back to the first loop of a waiting method when `UnlockedGrow` is done. -/
def NodePc.Leaves (node : NodePc) : Prop := ∀ len mt after, node = .growing len mt after → after.outside = true

/-- Where the node goes in a step, as far as the first loop of `WaitForData` and `WaitForFreespace` is concerned: it stays
where it is, or it goes elsewhere, or it calls one of them. -/
inductive WaitStep (k : KernelBase) (s : Side) (act : SideAct) (node : NodePc) : Prop
  | same : node = s.node → s.callsWait k act = false → WaitStep k s act node
  | elsewhere : node.outside = true → WaitStep k s act node
  | grows {len mt : Nat} {after : NodePc} : node = .growing len mt after → after.outside = true → WaitStep k s act node
  | calls {t c : Nat} {g : Bool} :
    node = .waitRemote t c g (s.q.clock + 1) → s.callsWait k act = true → WaitStep k s act node

namespace WaitStep

variable {act : SideAct} {thresh chan saveclock : Nat} {grown : Bool}

private theorem leaves {node : NodePc} (h : WaitStep k s act node) (hs : s.node.Leaves) : node.Leaves := by
  intro len mt after heq
  cases h with
  | same h => exact hs len mt after (h.symm.trans heq)
  | elsewhere h =>
    rw [heq] at h
    cases h
  | grows h hafter =>
    rw [h] at heq
    cases heq
    exact hafter
  | calls h =>
    rw [h] at heq
    cases heq

/-- The loop is left for one of two places. -/
private theorem waitRemote_cases (t : Side) :
    (t.waitRemote thresh chan grown saveclock).node = .waitRemote thresh chan grown saveclock ∨
      (t.waitRemote thresh chan grown saveclock).node.outside = true := by
  unfold Side.waitRemote
  split_ifs
  · exact .inl rfl
  · exact .inr rfl
  · exact .inr rfl

private theorem of_nodeGrow {len mt : Nat} {after : NodePc} (hcalls : s.callsWait k act = false)
    (hafter : after.outside = true) : WaitStep k s act (s.nodeGrow k len mt after).node := by
  unfold Side.nodeGrow
  split
  · exact .same rfl hcalls
  · exact .elsewhere hafter
  · exact .grows rfl hafter

private theorem of_wakes (h : s.node.Leaves) : WaitStep k s .wakes (s.wakes k).node := by
  unfold Side.wakes
  split
  · rename_i hn
    rcases waitRemote_cases s with h | h
    · exact .same (h.trans hn.symm) rfl
    · exact .elsewhere h
  · split_ifs
    · exact .same rfl rfl
    · exact .elsewhere rfl
  · rename_i hn
    unfold Side.resumeGrow
    split_ifs
    · exact .same rfl rfl
    · split
      · exact .same rfl rfl
      · exact .elsewhere (h _ _ _ hn)
  · exact .same rfl rfl

private theorem callsWait_pass (hn : s.node = .loop thresh chan grown) {passed : Pass (RemoteQueue × Bool)} :
    Side.passOf k s.q thresh chan grown = passed → s.callsWait k .pass = match passed with
      | .waits _ => true
      | _ => false := by
  intro heq
  unfold Side.callsWait
  rw [hn]
  subst heq
  rfl

private theorem of_pass (hn : s.node = .loop thresh chan grown) : WaitStep k s .pass (s.pass k thresh chan grown).node := by
  have hstirs := Side.stirs_passOf k s.q thresh chan grown
  unfold Side.pass
  split <;> rename_i heq <;> rw [heq] at hstirs <;> have hcalls := callsWait_pass hn heq
  · exact .elsewhere rfl
  · exact .elsewhere rfl
  · exact .elsewhere rfl
  · exact .elsewhere rfl
  · exact .grows rfl rfl
  · rename_i q g
    have hclock : q.clock = s.q.clock := congrArg Prod.fst hstirs.clocks
    unfold Side.waitForPeer
    rcases waitRemote_cases _ with h | h
    · exact .calls (h.trans (congrArg (fun n => NodePc.waitRemote thresh chan g (n + 1)) hclock)) hcalls
    · exact .elsewhere h
  · exact .same rfl hcalls

/-- What a step of a side does to the place of its node. -/
theorem of_next {inbox : Wire} {peerEnded : Bool} {r : SideStep} (hn : sideNext k s inbox peerEnded act = some r)
    (h : s.node.Leaves) : WaitStep k s act r.side.node := by
  -- only a pass of its loop takes the node to a wait for the other side
  cases sideMove_of_sideNext hn with
  | getRawPtr =>
    unfold Side.getRawPtr
    split
    · split_ifs <;> first | exact .elsewhere rfl | exact .same rfl rfl
    · split_ifs <;> first | exact .elsewhere rfl | exact .same rfl rfl
  | pass hnode => exact of_pass hnode
  | wakes => exact of_wakes h
  | write =>
    unfold Side.write
    split <;> exact .same rfl rfl
  | commit =>
    unfold Side.commit Side.dequeue Side.enqueue
    dsimp only
    split
    · split_ifs <;> exact .same rfl rfl
    · split_ifs
      · exact .same rfl rfl
      · split <;> exact .same rfl rfl
  | grow => exact of_nodeGrow rfl rfl
  | shutdown =>
    unfold Side.shutdown
    split <;> exact .same rfl rfl
  | detect => exact of_nodeGrow rfl rfl
  | deadlock => exact .elsewhere rfl
  | check =>
    unfold Side.check
    dsimp only
    split_ifs <;> exact .same rfl rfl
  | @readPacket p =>
    have hnode : (s.readPacket k p).node = s.node := by
      unfold Side.readPacket
      split_ifs
      · split <;> rfl
      · split <;> rfl
    exact .same hnode rfl
  | readDone =>
    unfold Side.readDone
    dsimp only
    split
    · exact .same rfl rfl
    · split_ifs <;> exact .same rfl rfl
  | @receive p ptrs n b =>
    have hnode : (s.receive p ptrs n b).node = s.node := by
      unfold Side.receive
      split <;> rfl
    exact .same hnode rfl
  | received =>
    unfold Side.received
    split <;> exact .same rfl rfl
  | sendPass =>
    rcases s.sendPass_cases with ⟨-, heq | ⟨fault, -, heq⟩ | ⟨q, p, ptrs, hb, heq⟩⟩ | ⟨-, heq⟩
    all_goals
      rw [heq]
      exact .same rfl rfl
  | send =>
    unfold Side.send
    split <;> exact .same rfl rfl
  | _ => exact .same rfl rfl

end WaitStep

/-! ### Echoes -/

/-- The echoes of the clock of the side `m`: the last one that it has heard, those on their way to it, and the one that
the other side will send next. -/
def PairState.echoes (s : PairState) (m : Mode) : List Nat :=
  (s.side m).q.remembered m :: ((headers (s.wire m.other)).map (·.clockOf m) ++ [(s.side m.other).q.remembered m])

/-- The stamps of the side `m` and their echoes. -/
structure Causal (m : Mode) (s : PairState × Transcript) : Prop where
  stamped : (s.2.sent m).Pairwise fun p p' => p.clockOf m < p'.clockOf m
  le_clock : ∀ p ∈ s.2.sent m, p.clockOf m ≤ (s.1.side m).q.clock
  sorted : (s.1.echoes m).Pairwise (· ≤ ·)
  known : ∀ e ∈ s.1.echoes m, e = 0 ∨ ∃ p ∈ s.2.processed m, p.clockOf m = e
  called : s.2.called m ≤ (s.2.sent m).length
  leaves : (s.1.side m).node.Leaves
  waiting : ∀ t c g saveclock, (s.1.side m).node = .waitRemote t c g saveclock →
    0 < saveclock ∧ ∀ p ∈ (s.2.sent m).take (s.2.called m), p.clockOf m < saveclock

namespace Causal

variable {s t : PairState × Transcript} {act : SideAct} {r : SideStep}

/-- The steps of the side itself. -/
theorem step (h : Causal m s) (hm : (s.1.side m).q.mode = m) (hs : Transcribed k s t m act r) : Causal m t := by
  have hclock := ClockStep.of_next hs.next
  have hwait := WaitStep.of_next hs.next h.leaves
  have htaken := congrArg headers (SideStep.taken_append hs.next)
  rw [headers_append] at htaken
  rw [hm] at hclock
  generalize headers (r.taken (s.1.wire m.other)) = taken at hclock htaken
  obtain ⟨sent, hsent⟩ : ∃ sent, headers r.sent = sent := ⟨_, rfl⟩
  rw [hsent] at hclock
  -- the side remembers the clock of the last packet it took, so nothing new is on the way back
  have hsub : (t.1.echoes m).Sublist (s.1.echoes m) := by
    rw [PairState.echoes, PairState.echoes, hs.side, hs.wire_other, hs.side_other, ← htaken]
    cases hclock with
    | still hc =>
      rw [RemoteQueue.remembered_of_clocks hc]
      exact .refl _
    | sends _ _ hr =>
      rw [hr]
      exact .refl _
    | takes hr =>
      rw [hr]
      exact .cons _ (.refl _)
  have hle : (s.1.side m).q.clock ≤ r.side.q.clock := by
    cases hclock with
    | still hc => exact Nat.le_of_eq (congrArg Prod.fst hc).symm
    | sends _ hc => omega
    | takes _ hc => exact Nat.le_of_lt hc
  have hnew : sent.Pairwise (fun p p' => p.clockOf m < p'.clockOf m) ∧
      ∀ p ∈ sent, (s.1.side m).q.clock < p.clockOf m ∧ p.clockOf m ≤ r.side.q.clock := by
    cases hclock with
    | still => exact ⟨.nil, nofun⟩
    | sends hst hc => exact ⟨hst.pairwise, fun p hp => ⟨hst.lt_clockOf hp, hc ▸ hst.clockOf_le hp⟩⟩
    | takes => exact ⟨.nil, nofun⟩
  refine ⟨?_, ?_, h.sorted.sublist hsub, ?_, ?_, ?_, ?_⟩
  · rw [hs.sent, hsent, List.pairwise_append]
    exact ⟨h.stamped, hnew.1, fun p hp p' hp' => (h.le_clock p hp).trans_lt (hnew.2 p' hp').1⟩
  · rw [hs.sent, hsent, hs.side]
    intro p hp
    rcases List.mem_append.1 hp with hp | hp
    · exact (h.le_clock p hp).trans hle
    · exact (hnew.2 p hp).2
  · rw [hs.processed]
    exact fun e he => h.known e (hsub.subset he)
  · rw [hs.called, hs.sent, List.length_append]
    have := h.called
    split_ifs <;> omega
  · rw [hs.side]
    exact hwait.leaves h.leaves
  · rw [hs.side, hs.called, hs.sent]
    intro t c g saveclock hnode
    cases hwait with
    | same heq hcalls =>
      rw [hcalls, if_neg Bool.false_ne_true, List.take_append_of_le_length h.called]
      exact h.waiting t c g saveclock (heq.symm.trans hnode)
    | elsewhere hout =>
      rw [hnode] at hout
      cases hout
    | grows hgrow =>
      rw [hnode] at hgrow
      cases hgrow
    -- the call that waits has a clock above that of everything sent before
    | calls heq hcalls =>
      rw [hcalls, if_pos rfl, List.take_left]
      rw [hnode] at heq
      cases heq
      exact ⟨Nat.succ_pos _, fun p hp => Nat.lt_succ_of_le (h.le_clock p hp)⟩

/-- The steps of the other side. -/
theorem step_other (h : Causal m s) (hm : (s.1.side m.other).q.mode = m.other)
    (hsent : s.2.sent m = s.2.processed m ++ headers (s.1.wire m)) (hs : Transcribed k s t m.other act r) : Causal m t := by
  have hother : m.other.other = m := by cases m <;> rfl
  have hside := hs.side_other
  have hwire := hs.wire_other
  have hsent' := hs.sent_other
  have hproc := hs.processed_other
  have hcalled := hs.called_other
  have hclock := ClockStep.of_next hs.next
  have htaken := congrArg headers (SideStep.taken_append hs.next)
  rw [hother] at hside hwire hsent' hproc hcalled hclock htaken
  rw [headers_append] at htaken
  rw [hm] at hclock
  generalize headers (r.taken (s.1.wire m)) = taken at hclock htaken hproc
  obtain ⟨sent, hnew⟩ : ∃ sent, headers r.sent = sent := ⟨_, rfl⟩
  rw [hnew] at hclock
  -- what the other side has sent and will send comes after what it sent before
  obtain ⟨front, hfront⟩ : ∃ front, (s.1.side m).q.remembered m :: (headers (s.1.wire m.other)).map (·.clockOf m) = front :=
    ⟨_, rfl⟩
  have hold : s.1.echoes m = front ++ [(s.1.side m.other).q.remembered m] := by
    rw [PairState.echoes, ← hfront]
    rfl
  have hechoes : t.1.echoes m = front ++ (sent.map (·.clockOf m) ++ [r.side.q.remembered m]) := by
    rw [PairState.echoes, hside, hs.wire, hs.side, headers_append, hnew, ← hfront]
    simp
  have hsorted := h.sorted
  have hknown := h.known
  rw [hold] at hsorted hknown
  obtain ⟨hsorted, -, hle⟩ := List.pairwise_append.1 hsorted
  have hlast := hknown _ (List.mem_append_right _ List.mem_cons_self)
  have hfresh : (sent.map (·.clockOf m) ++ [r.side.q.remembered m]).Pairwise (· ≤ ·) ∧
      ∀ e ∈ sent.map (·.clockOf m) ++ [r.side.q.remembered m], (s.1.side m.other).q.remembered m ≤ e ∧
        (e = 0 ∨ ∃ p ∈ s.2.processed m ++ taken, p.clockOf m = e) := by
    cases hclock with
    | still hc =>
      rw [RemoteQueue.remembered_of_clocks hc, List.append_nil]
      exact ⟨List.pairwise_singleton _ _, fun e he => by
        obtain rfl : e = _ := by simpa using he
        exact ⟨Nat.le_refl _, hlast⟩⟩
    | sends hst _ hr =>
      rw [hother] at hst
      have hall : ∀ e ∈ sent.map (·.clockOf m) ++ [r.side.q.remembered m], e = (s.1.side m.other).q.remembered m := by
        intro e he
        rw [List.mem_append, List.mem_map, List.mem_singleton, hr] at he
        rcases he with ⟨p, hp, rfl⟩ | rfl
        · have := hst.clockOf_other hp
          rwa [hother] at this
        · rfl
      refine ⟨List.pairwise_of_forall_mem_list fun e he e' he' => ?_, fun e he => ?_⟩
      · rw [hall e he, hall e' he']
      · rw [hall e he, List.append_nil]
        exact ⟨Nat.le_refl _, hlast⟩
    | @takes p hr =>
      rw [hr]
      have hstamped := h.stamped
      rw [hsent, ← htaken, List.pairwise_append] at hstamped
      refine ⟨List.pairwise_singleton _ _, fun e he => ?_⟩
      obtain rfl : e = p.clockOf m := by simpa using he
      refine ⟨?_, .inr ⟨p, by simp, rfl⟩⟩
      rcases hlast with h0 | ⟨p0, hp0, heq⟩
      · rw [h0]
        exact Nat.zero_le _
      · rw [← heq]
        exact Nat.le_of_lt (hstamped.2.2 p0 hp0 p (by simp))
  refine ⟨hsent' ▸ h.stamped, ?_, ?_, ?_, ?_, hside ▸ h.leaves, ?_⟩
  · rw [hsent', hside]
    exact h.le_clock
  · rw [hechoes, List.pairwise_append]
    exact ⟨hsorted, hfresh.1, fun e he e' he' => (hle e he _ List.mem_cons_self).trans (hfresh.2 e' he').1⟩
  · rw [hechoes, hproc]
    intro e he
    rcases List.mem_append.1 he with he | he
    · rcases hknown e (List.mem_append_left _ he) with h0 | ⟨p, hp, heq⟩
      · exact .inl h0
      · exact .inr ⟨p, List.mem_append_left _ hp, heq⟩
    · exact (hfresh.2 e he).2
  · rw [hcalled, hsent']
    exact h.called
  · rw [hside, hsent', hcalled]
    exact h.waiting

end Causal

private theorem causal_of_transcribed {s : PairState × Transcript} (h : (transcribedPair k arithmetic).Reachable s)
    (m : Mode) :
    Causal m s := by
  refine h.invariant_of (I := fun s => ∀ m, Causal m s) (fun s hs => And.intro (sent_eq hs)
    (pairSound_of_reachableBy (reachable_of_transcribed hs))) ?_ ?_ m
  · rintro ⟨s, w⟩ ⟨⟨attr, -, -, rfl⟩, rfl⟩ m
    have hechoes : (pairStart k attr).echoes m = [0, 0] := by cases m <;> rfl
    refine ⟨.nil, nofun, hechoes ▸ by decide, fun e he => .inl ?_, Nat.le_refl _, nofun, nofun⟩
    rw [hechoes] at he
    simpa using he
  · intro s a t ⟨hsent, hsound⟩ hI _ hn m
    obtain ⟨r, hr⟩ := transcribed_of_next hn
    obtain ⟨m', act⟩ := a
    rcases m'.eq_or_eq_other m with rfl | rfl
    · exact (hI m).step (hsound.mode m) hr
    · have hother : m'.other.other = m' := by cases m' <;> rfl
      have hsound' := hsound.mode m'.other.other
      have hr' := hr
      rw [← hother] at hr'
      exact (hI m'.other).step_other hsound' (hsent _) hr'

/-- The `saveclock` with which a step of the node evaluates the condition of the first loop of `WaitForData` or
`WaitForFreespace`. -/
def Side.saveclock (k : KernelBase) (s : Side) (act : SideAct) : Option Nat :=
  match act, s.node with
  | .pass, .loop .. => if s.callsWait k .pass then some (s.q.clock + 1) else none
  | .wakes, .waitRemote _ _ _ saveclock => some saveclock
  | _, _ => none

/-- The node is in that loop. -/
def NodePc.inFirstLoop : NodePc → Bool
  | .waitRemote .. => true
  | _ => false

/-- The echo that a side has heard is 0 or the stamp of a packet that has been processed. -/
theorem Causal.echo_le {s : PairState × Transcript} (h : Causal m s)
    (hsent : s.2.sent m = s.2.processed m ++ headers (s.1.wire m)) :
    (s.1.side m).q.remembered m ≤ (s.1.side m).q.clock := by
  rcases h.known _ List.mem_cons_self with h0 | ⟨p, hp, heq⟩
  · rw [h0]
    exact Nat.zero_le _
  · rw [← heq]
    exact h.le_clock p (hsent ▸ List.mem_append_left _ hp)

/-- No step takes the echo back. -/
theorem Causal.echo_mono {s t : PairState × Transcript} {a : PairAct} (h : Causal m s) (hs : PairSound k s.1)
    (hn : (transcribedPair k arithmetic).next s a = some t) : (s.1.side m).q.remembered m ≤ (t.1.side m).q.remembered m := by
  obtain ⟨r, hr⟩ := transcribed_of_next hn
  rcases a.mode.eq_or_eq_other m with rfl | rfl
  · rw [hr.side]
    have hclock := ClockStep.of_next hr.next
    have htaken := congrArg headers (SideStep.taken_append hr.next)
    have hsorted := h.sorted
    rw [headers_append] at htaken
    rw [hs.mode] at hclock
    rw [PairState.echoes, ← htaken] at hsorted
    generalize headers (r.taken (s.1.wire a.mode.other)) = taken at hclock hsorted
    generalize headers r.sent = sent at hclock
    cases hclock with
    | still hc => rw [RemoteQueue.remembered_of_clocks hc]
    | sends _ _ hrem => rw [hrem]
    | takes hrem =>
      rw [hrem]
      exact (List.pairwise_cons.1 hsorted).1 _ List.mem_cons_self
  · rw [hr.side_other]

/-- An echo from after the call is the stamp of a packet that was sent after it. -/
theorem Causal.called_lt {s : PairState × Transcript} (h : Causal m s)
    (hsent : s.2.sent m = s.2.processed m ++ headers (s.1.wire m)) {t c saveclock : Nat} {g : Bool}
    (hnode : (s.1.side m).node = .waitRemote t c g saveclock) (hecho : saveclock ≤ (s.1.side m).q.remembered m) :
    s.2.called m < (s.2.processed m).length := by
  obtain ⟨hpos, hbefore⟩ := h.waiting t c g saveclock hnode
  rcases h.known _ List.mem_cons_self with h0 | ⟨p, hp, heq⟩
  · omega
  · by_contra hle
    have hmem : p ∈ (s.2.sent m).take (s.2.called m) := by
      rw [hsent, List.take_append]
      exact List.mem_append_left _ (by rwa [List.take_of_length_le (Nat.not_lt.1 hle)])
    have := hbefore p hmem
    omega

/-- The stamps of a side increase, and so do their echoes, which are never ahead of the clock; and when the first loop of a
waiting method ends on an echo, a packet that was sent after the call has been processed. -/
theorem clock_echo (k : KernelBase) {s : PairState × Transcript} (h : (transcribedPair k arithmetic).Reachable s)
    (m : Mode) :
    (s.2.sent m).Pairwise (fun p p' => p.clockOf m < p'.clockOf m) ∧
    (s.1.side m).q.remembered m ≤ (s.1.side m).q.clock ∧
    (∀ t, (transcribedPair k arithmetic).LeadsBy (fun _ _ => True) s t →
      (s.1.side m).q.remembered m ≤ (t.1.side m).q.remembered m) ∧
    ∀ act t saveclock, (transcribedPair k arithmetic).next s ⟨m, act⟩ = some t → (s.1.side m).saveclock k act =
      some saveclock →
      (t.1.side m).node.inFirstLoop = false → saveclock ≤ (t.1.side m).q.remembered m →
      t.2.processed m <+: t.2.sent m ∧ t.2.called m < (t.2.processed m).length := by
  have hcausal := causal_of_transcribed h m
  have hle := hcausal.echo_le (sent_eq h m)
  refine ⟨hcausal.stamped, hle, fun t ht => ?_, fun act t saveclock hn hsave _ hecho => ?_⟩
  · refine (ht.invariant (I := fun t => (transcribedPair k arithmetic).Reachable t ∧
      (s.1.side m).q.remembered m ≤ (t.1.side m).q.remembered m) ?_ ⟨h, Nat.le_refl _⟩).2
    rintro t a u ⟨hreach, hle⟩ hok hn
    have hsound := pairSound_of_reachableBy (reachable_of_transcribed hreach)
    exact ⟨hreach.step hok hn, hle.trans ((causal_of_transcribed hreach m).echo_mono hsound hn)⟩
  · have ht : (transcribedPair k arithmetic).Reachable t := h.step trivial hn
    refine ⟨⟨_, (sent_eq ht m).symm⟩, ?_⟩
    obtain ⟨r, hr⟩ := transcribed_of_next hn
    have hsame : act = .pass ∨ act = .wakes → r.side.q.remembered m = (s.1.side m).q.remembered m := by
      rintro (rfl | rfl)
      · cases sideMove_of_sideNext hr.next with
        | pass => rw [RemoteQueue.remembered_of_clocks (Side.stirring_pass).queue.clocks]
      · cases sideMove_of_sideNext hr.next with
        | wakes => rw [RemoteQueue.remembered_of_clocks (Side.stirring_wakes).queue.clocks]
    unfold Side.saveclock at hsave
    split at hsave
    · -- the call itself: the echo is not ahead of the clock
      rw [hr.side, hsame (.inl rfl)] at hecho
      split_ifs at hsave
      cases hsave
      omega
    · rename_i hnode
      cases hsave
      rw [hr.side, hsame (.inr rfl)] at hecho
      rw [hr.called, hr.processed]
      exact hcausal.called_lt (sent_eq h m) hnode hecho
    · cases hsave

/-- The reader asks for a byte, and the answer of the writer ends the first loop of `WaitForData`. -/
theorem clock_echo_answered : ∃ s t, (transcribedPair (.standard true)).Reachable s ∧
    (transcribedPair (.standard true)).next s (atReader .wakes) = some t ∧
    (s.1.side .read).saveclock (.standard true) .wakes = some 1 ∧ (t.1.side .read).node.inFirstLoop = false ∧
    1 ≤ (t.1.side .read).q.remembered .read ∧ t.2.called .read < (t.2.processed .read).length := by
  have hrun : (((transcribedPair (.standard true)).runBy (fun _ _ => True) (pairStart (.standard true) (.halved 4 2), .start)
      [atReader (.getRawPtr 1 0), atReader .pass, atReader .check, atReader (.readDone false), atWriter .check,
        atWriter .readPacket, atWriter (.readDone false), atWriter .sendPass, atReader .tick, atReader .check,
        atReader .readPacket, atReader (.readDone false)]).any fun s =>
          ((transcribedPair (.standard true)).next s (atReader .wakes)).any fun t =>
            (s.1.side .read).saveclock (.standard true) .wakes = some 1 ∧ (t.1.side .read).node.inFirstLoop = false ∧
              1 ≤ (t.1.side .read).q.remembered .read) = true := by
    decide +kernel
  obtain ⟨s, hs, hp⟩ := Machine.exists_reachableBy (M := transcribedPair (.standard true))
    ⟨⟨_, by decide, rfl, rfl⟩, rfl⟩ hrun
  obtain ⟨t, hn, hp⟩ := (Option.any_eq_true _ _).1 hp
  obtain ⟨h1, h2, h3⟩ := of_decide_eq_true hp
  exact ⟨s, t, hs, hn, h1, h2, h3, ((clock_echo _ hs .read).2.2.2 .wakes t 1 hn h1 h2 h3).2⟩

end ProcessNetwork
