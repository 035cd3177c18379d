import ProcessNetwork.Lib.Machine
import ProcessNetwork.RemoteQueue

/-!
# The two ends of a remote queue

A `RemoteQueue` in mode `write` and one in mode `read`, joined by a channel in each direction.  On each side there are a
node thread, which uses the queue as the writer or the reader, an action thread, which runs `InternalCheckStatus`, and
the events of the other threads.  A step is a section of code under the queue lock, or one byte read from or written to
the socket while `EnqueuePacket` or `SendEnqueuePacket` has given up the lock.  The passes of a loop are steps of their
own during which the thread keeps the lock.

Threads may be woken at any time.  An assertion that fails ends the process (nothing catches the exception), so a side
that has failed takes no more steps.
-/

namespace ProcessNetwork

/-- Where the node thread is: outside, in the loop of `GetRawDequeuePtr` or `GetRawEnqueuePtr` with the lock, in the
first loop of `WaitForData` or `WaitForFreespace`, in the same method of the base class, or in `UnlockedGrow` until the
pending grow packet is sent. -/
inductive NodePc
  | idle
  | loop (thresh chan : Nat) (grown : Bool)
  | waitRemote (thresh chan : Nat) (grown : Bool) (saveclock : Nat)
  | waitLocal (thresh chan : Nat) (grown : Bool)
  | growing (queueLen maxThresh : Nat) (after : NodePc)
  deriving DecidableEq, Repr

/-- Where the action thread is: before its first `InternalCheckStatus`, waiting for an action, in `Read` with the lock,
in `EnqueuePacket` without it, in the loop that sends enqueue packets with the lock, in `SendEnqueuePacket` without it,
or at its end. -/
inductive ActionPc
  | starting
  | idle
  | reading
  | receiving (p : Packet) (ptrs : List Ptr) (numread : Nat)
  | sendLoop
  | sending (p : Packet) (ptrs : List Ptr) (numwritten : Nat)
  | exited
  deriving DecidableEq, Repr

/-- One side of a remote queue. -/
structure Side where
  q : RemoteQueue
  node : NodePc
  action : ActionPc
  ptrs : List HeldPtr
  /-- what the writer has written through its pointers since the enqueue began, by channel and offset -/
  written : Nat → Nat → Option Byte
  /-- the bytes the node has enqueued, or dequeued, on each channel -/
  history : Nat → List Byte
  failed : Option Fault

abbrev Wire := List (Item Packet Byte)

inductive SideAct
  | getRawPtr (thresh chan : Nat)
  | pass
  | wakes
  | write (p : HeldPtr) (off : Nat) (b : Byte)
  | commit (count : Nat)
  | grow (queueLen maxThresh : Nat)
  | shutdown
  | detect
  | deadlock
  | tagChanged
  | tick
  | check
  | readPacket
  | readDone (eof : Bool)
  | receive
  | received
  | sendPass
  | send
  | sent
  deriving DecidableEq, Repr

namespace Side

def lockFree (s : Side) : Bool :=
  match s.node, s.action with
  | .loop .., _ => false
  | _, .reading => false
  | _, .sendLoop => false
  | _, _ => true

/-- The process ends. -/
def fail (s : Side) (fault : Fault) : Side := { s with failed := some fault }

def newBytes (s : Side) (count c : Nat) : List Byte :=
  (s.q.enqueueRegion c count).mapIdx fun i b => (s.written c i).getD b

/-! ### The node thread -/

/-- `GetRawDequeuePtr` or `GetRawEnqueuePtr` up to its loop. -/
def getRawPtr (s : Side) (thresh chan : Nat) : Side :=
  match s.q.mode with
  | .read =>
    if s.q.indequeue then if s.q.dequeuethresh ≥ thresh then { s with node := .loop thresh chan false } else s
    else { s with q := { s.q with dequeuethresh := thresh }, node := .loop thresh chan false }
  | .write =>
    if s.q.inenqueue then if s.q.enqueuethresh ≥ thresh then { s with node := .loop thresh chan false } else s
    else { s with q := { s.q with enqueuethresh := thresh }, node := .loop thresh chan false }

def blocked (q : RemoteQueue) : Bool :=
  match q.mode with
  | .read => Queue.readBlocked q
  | .write => Queue.writeBlocked q

def clearRequest (q : RemoteQueue) : RemoteQueue :=
  match q.mode with
  | .read => { q with readrequest := 0 }
  | .write => { q with writerequest := 0 }

/-- The clock of this side as last echoed by the other one. -/
def echo (q : RemoteQueue) : Nat :=
  match q.mode with
  | .read => q.readclock
  | .write => q.writeclock

/-- The first loop of `WaitForData` and `WaitForFreespace`, and what follows it. -/
def waitRemote (s : Side) (thresh chan : Nat) (grown : Bool) (saveclock : Nat) : Side :=
  if blocked s.q && (!s.q.tagUpdated || decide (saveclock > echo s.q)) then
    { s with node := .waitRemote thresh chan grown saveclock }
  else if blocked s.q && s.q.tagUpdated then { s with node := .waitLocal thresh chan grown }
  else { s with q := clearRequest s.q, node := .loop thresh chan grown }

def waitForPeer (s : Side) (thresh chan : Nat) (grown : Bool) : Side :=
  let q := { s.q with pendingBlock := true, tagUpdated := false }.signal
  { s with q := q }.waitRemote thresh chan grown (s.q.clock + 1)

def passOf (k : KernelBase) (q : RemoteQueue) (thresh chan : Nat) (grown : Bool) : Pass (RemoteQueue × Bool) :=
  match q.mode with
  | .read => (Queue.dequeuePass k q thresh chan).map (·, grown)
  | .write => Queue.enqueuePass k q thresh chan grown

def pass (k : KernelBase) (s : Side) (thresh chan : Nat) (grown : Bool) : Side :=
  match passOf k s.q thresh chan grown with
  | .returns none (q, _) => { s with q := q, node := .idle }
  | .returns (some ptr) (q, _) => { s with q := q, node := .idle, ptrs := ⟨chan, thresh, ptr⟩ :: s.ptrs }
  | .broken (q, _) => { s with q := q, node := .idle }
  | .again (q, grown) => { s with q := q, node := .loop thresh chan grown }
  | .growing (q, grown) queueLen maxThresh =>
    { s with q := q, node := .growing queueLen maxThresh (.loop thresh chan grown) }
  | .waits (q, grown) => { s with q := q }.waitForPeer thresh chan grown
  | .fails fault => s.fail fault

/-- The loop in `UnlockedGrow` after a wakeup. -/
def resumeGrow (k : KernelBase) (s : Side) (queueLen maxThresh : Nat) (after : NodePc) : Side :=
  if s.q.pendingGrow && !s.q.dead then { s with q := s.q.signal }
  else
    match s.q.finishGrow k.malloc queueLen maxThresh with
    | .error fault => s.fail fault
    | .ok q => { s with q := q, node := after }

def wakes (k : KernelBase) (s : Side) : Side :=
  match s.node with
  | .waitRemote thresh chan grown saveclock => s.waitRemote thresh chan grown saveclock
  | .waitLocal thresh chan grown =>
    if blocked s.q then s else { s with q := clearRequest s.q, node := .loop thresh chan grown }
  | .growing queueLen maxThresh after => s.resumeGrow k queueLen maxThresh after
  | _ => s

def write (s : Side) (p : HeldPtr) (off : Nat) (b : Byte) : Side :=
  match s.q.toThresholdQueue.store p.ptr off b with
  | none => s.fail .nullPointer
  | some base =>
    { s with
      q := { s.q with toThresholdQueue := base }
      written := Function.update s.written p.chan (Function.update (s.written p.chan) off (some b)) }

/-- `Dequeue` -/
def dequeue (s : Side) (count : Nat) : Side :=
  let base := { s.q.toThresholdQueue with dequeuethresh := 0, indequeue := false }
  if base.readshutdown then { s with q := { s.q with toThresholdQueue := base }, ptrs := [] }
  else
    { s with
      q := Queue.notifyFreespace { s.q with toThresholdQueue := base.internalDequeue count }.signal
      ptrs := []
      history := fun c => s.history c ++ s.q.dequeueRegion c count }

/-- `Enqueue` -/
def enqueue (s : Side) (count : Nat) : Side :=
  let base := { s.q.toThresholdQueue with enqueuethresh := 0, inenqueue := false }
  if base.writeshutdown then { s with q := { s.q with toThresholdQueue := base }, ptrs := [], written := fun _ _ => none }
  else
    match base.internalEnqueue count with
    | .error fault => s.fail fault
    | .ok base =>
      { s with
        q := Queue.notifyData { s.q with toThresholdQueue := base }.signal
        ptrs := []
        written := fun _ _ => none
        history := fun c => s.history c ++ s.newBytes count c }

def commit (s : Side) (count : Nat) : Side :=
  match s.q.mode with
  | .read => s.dequeue count
  | .write => s.enqueue count

/-- The operation of this node is outstanding. -/
def inOperation (s : Side) : Bool :=
  match s.q.mode with
  | .read => s.q.indequeue
  | .write => s.q.inenqueue

/-- The number of bytes that this node may enqueue or dequeue. -/
def allowed (s : Side) : Nat :=
  match s.q.mode with
  | .read => if s.q.indequeue then s.q.dequeuethresh else 0
  | .write => if s.q.inenqueue then s.q.enqueuethresh else 0

/-- `UnlockedGrow` by the node, from which it goes on at `after`. -/
def nodeGrow (k : KernelBase) (s : Side) (queueLen maxThresh : Nat) (after : NodePc) : Side :=
  match s.q.unlockedGrow k queueLen maxThresh with
  | .error fault => s.fail fault
  | .ok (.done q) => { s with q := q, node := after }
  | .ok (.waits q) => { s with q := q, node := .growing queueLen maxThresh after }

def detect (k : KernelBase) (s : Side) (after : NodePc) : Side :=
  s.nodeGrow k (u32 (k.calculateGrowSize s.q.unlockedCount s.q.writerequest)) s.q.writerequest after

/-- `ShutdownReader` by the reader or `ShutdownWriter` by the writer. -/
def shutdown (s : Side) : Side :=
  match s.q.mode with
  | .read => { s with q := Queue.unlockedShutdownReader s.q }
  | .write => { s with q := Queue.unlockedShutdownWriter s.q }

/-! ### The action thread -/

/-- The start of `InternalCheckStatus`, with the end of the loop of `ActionThreadEntryPoint` before it. -/
def check (s : Side) : Side :=
  if s.q.dead then { s with action := .exited }
  else
    let q := if s.action = .idle then { s.q with pendingAction := false } else s.q
    if q.closed then { s with q := q, action := .idle }
    else if q.eof && !(q.readshutdown || q.writeshutdown) then s.fail (.assert "EOF detected but not shutdown!")
    else { s with q := q, action := .reading }

/-- A packet that `Read` has received. -/
def readPacket (k : KernelBase) (s : Side) (p : Packet) : Side :=
  if p.type = .enqueue then
    match s.q.beginEnqueuePacket k.malloc p with
    | .error fault => s.fail fault
    | .ok (q, ptrs) => { s with q := q, action := .receiving p ptrs 0 }
  else
    match s.q.firePacket k p with
    | .error fault => s.fail fault
    | .ok q => { s with q := q }

/-- The sections after `Read`, up to the loop that sends enqueue packets or to the end. -/
def readDone (s : Side) (eof : Bool) : Side × List Packet :=
  let r := { s.q with eof := s.q.eof || eof }.sendPendingGrow
  match s.q.mode with
  | .read =>
    let r := r.andThen RemoteQueue.finishRead
    ({ s with q := r.1, action := .idle }, r.2)
  | .write =>
    if r.1.sentEnd then
      let r := r.andThen RemoteQueue.finishWrite
      ({ s with q := r.1, action := .idle }, r.2)
    else ({ s with q := r.1, action := .sendLoop }, r.2)

/-- A byte of the payload of an enqueue packet has been read. -/
def receive (s : Side) (p : Packet) (ptrs : List Ptr) (numread : Nat) (b : Byte) : Side :=
  match (ptrs[numread / p.count]?).bind fun ptr => s.q.toThresholdQueue.store ptr (numread % p.count) b with
  | none => s.fail .nullPointer
  | some base => { s with q := { s.q with toThresholdQueue := base }, action := .receiving p ptrs (numread + 1) }

def received (s : Side) (p : Packet) : Side :=
  match s.q.endEnqueuePacket p.count with
  | .error fault => s.fail fault
  | .ok q => { s with q := q, action := .reading }

/-- A pass of the loop that sends enqueue packets, or what follows the loop. -/
def sendPass (s : Side) : Side × List Packet :=
  if s.q.canSendEnqueue then
    let count := s.q.sendEnqueueCount
    if count = 0 then (s, [])
    else
      match s.q.beginSendEnqueue count with
      | .error fault => (s.fail fault, [])
      | .ok (q, p, ptrs) => ({ s with q := q, action := .sending p ptrs 0 }, [p])
  else
    let r := s.q.finishWrite
    ({ s with q := r.1, action := .idle }, r.2)

/-- The next byte of the payload that `WriteBytes` writes. -/
def send (s : Side) (p : Packet) (ptrs : List Ptr) (numwritten : Nat) : Side × Wire :=
  match (ptrs[numwritten / p.count]?).bind fun ptr => s.q.toThresholdQueue.peek ptr (numwritten % p.count) with
  | none => (s.fail .nullPointer, [])
  | some b => ({ s with action := .sending p ptrs (numwritten + 1) }, [.byte b])

def sent (s : Side) (p : Packet) : Side := { s with q := s.q.endSendEnqueue p.count, action := .sendLoop }

end Side

/-! ### Steps -/

/-- A step of a side with what is on its way to it: the side, what is left of that, and what it sends. -/
structure SideStep where
  side : Side
  rest : Wire
  sent : Wire

open Side in
def sideNext (k : KernelBase) (s : Side) (inbox : Wire) (peerEnded : Bool) : SideAct → Option SideStep
  | .getRawPtr thresh chan =>
    if s.failed = none ∧ s.lockFree ∧ s.node = .idle ∧ chan < s.q.queue.numChannels ∧ thresh < 2 ^ 32 then
      some ⟨s.getRawPtr thresh chan, inbox, []⟩
    else none
  | .pass =>
    match s.node with
    | .loop thresh chan grown => if s.failed = none then some ⟨s.pass k thresh chan grown, inbox, []⟩ else none
    | _ => none
  | .wakes => if s.failed = none ∧ s.lockFree then some ⟨s.wakes k, inbox, []⟩ else none
  | .write p off b =>
    if s.failed = none ∧ s.q.mode = .write ∧ s.node = .idle ∧ p ∈ s.ptrs ∧ off < p.thresh then
      some ⟨s.write p off b, inbox, []⟩
    else none
  | .commit count =>
    if s.failed = none ∧ s.lockFree ∧ s.node = .idle ∧ count ≤ s.allowed then some ⟨s.commit count, inbox, []⟩ else none
  | .grow queueLen maxThresh =>
    if s.failed = none ∧ s.lockFree ∧ s.node = .idle ∧ s.inOperation = false ∧ queueLen < 2 ^ 32 ∧ maxThresh < 2 ^ 32 then
      some ⟨s.nodeGrow k queueLen maxThresh .idle, inbox, []⟩
    else none
  | .shutdown =>
    if s.failed = none ∧ s.lockFree ∧ s.node = .idle then some ⟨s.shutdown, inbox, []⟩ else none
  | .detect =>
    match s.node with
    | .waitLocal thresh chan grown =>
      if s.failed = none ∧ s.lockFree ∧ k.useD4R ∧ s.q.mode = .write ∧ Queue.writeBlocked s.q then
        some ⟨s.detect k (.waitLocal thresh chan grown), inbox, []⟩
      else none
    | _ => none
  | .deadlock =>
    match s.node with
    | .waitLocal .. =>
      if s.failed = none ∧ s.lockFree ∧ k.useD4R ∧ s.q.mode = .read then
        some ⟨{ s with q := s.q.signal, node := .idle }, inbox, []⟩
      else none
    | _ => none
  | .tagChanged =>
    if s.failed = none ∧ s.lockFree then
      some ⟨{ s with q := { s.q with pendingD4RTag := true }.signal }, inbox, []⟩
    else none
  | .tick => if s.failed = none ∧ s.lockFree then some ⟨{ s with q := s.q.signal }, inbox, []⟩ else none
  | .check =>
    if s.failed = none ∧ s.lockFree ∧ (s.action = .starting ∨ s.action = .idle ∧ (s.q.pendingAction || s.q.dead)) then
      some ⟨s.check, inbox, []⟩
    else none
  | .readPacket =>
    match inbox with
    | .header p :: rest =>
      if s.failed = none ∧ s.action = .reading then
        -- a packet whose handler fails stays where it is
        let t := s.readPacket k p
        some ⟨t, if t.failed = none then rest else inbox, []⟩
      else none
    | _ => none
  | .readDone eof =>
    if s.failed = none ∧ s.action = .reading ∧ (eof = true → inbox = [] ∧ peerEnded = true) then
      some ⟨(s.readDone eof).1, inbox, (s.readDone eof).2.map .header⟩
    else none
  | .receive =>
    match s.action, inbox with
    | .receiving p ptrs numread, .byte b :: rest =>
      if s.failed = none ∧ numread < p.dataLength then
        let t := s.receive p ptrs numread b
        some ⟨t, if t.failed = none then rest else inbox, []⟩
      else none
    | _, _ => none
  | .received =>
    match s.action with
    | .receiving p _ numread =>
      if s.failed = none ∧ s.lockFree ∧ numread = p.dataLength then some ⟨s.received p, inbox, []⟩ else none
    | _ => none
  | .sendPass =>
    if s.failed = none ∧ s.action = .sendLoop then some ⟨s.sendPass.1, inbox, s.sendPass.2.map .header⟩ else none
  | .send =>
    match s.action with
    | .sending p ptrs numwritten =>
      if s.failed = none ∧ numwritten < p.dataLength then
        some ⟨(s.send p ptrs numwritten).1, inbox, (s.send p ptrs numwritten).2⟩
      else none
    | _ => none
  | .sent =>
    match s.action with
    | .sending p _ numwritten =>
      if s.failed = none ∧ s.lockFree ∧ numwritten = p.dataLength then some ⟨s.sent p, inbox, []⟩ else none
    | _ => none

/-- The steps of a side one by one, with their conditions. -/
inductive SideMove (k : KernelBase) (s : Side) (inbox : Wire) (peerEnded : Bool) : SideAct → SideStep → Prop
  | getRawPtr {thresh chan : Nat} : s.lockFree = true → s.node = .idle → chan < s.q.queue.numChannels →
      thresh < 2 ^ 32 → SideMove k s inbox peerEnded (.getRawPtr thresh chan) ⟨s.getRawPtr thresh chan, inbox, []⟩
  | pass {thresh chan : Nat} {grown : Bool} : s.node = .loop thresh chan grown →
      SideMove k s inbox peerEnded .pass ⟨s.pass k thresh chan grown, inbox, []⟩
  | wakes : s.lockFree = true → SideMove k s inbox peerEnded .wakes ⟨s.wakes k, inbox, []⟩
  | write {p : HeldPtr} {off : Nat} {b : Byte} : s.q.mode = .write → p ∈ s.ptrs → off < p.thresh →
      SideMove k s inbox peerEnded (.write p off b) ⟨s.write p off b, inbox, []⟩
  | commit {count : Nat} : s.lockFree = true → s.node = .idle → count ≤ s.allowed →
      SideMove k s inbox peerEnded (.commit count) ⟨s.commit count, inbox, []⟩
  | grow {queueLen maxThresh : Nat} : s.lockFree = true → s.node = .idle → s.inOperation = false →
      queueLen < 2 ^ 32 → maxThresh < 2 ^ 32 →
      SideMove k s inbox peerEnded (.grow queueLen maxThresh) ⟨s.nodeGrow k queueLen maxThresh .idle, inbox, []⟩
  | shutdown : s.lockFree = true → s.node = .idle → SideMove k s inbox peerEnded .shutdown ⟨s.shutdown, inbox, []⟩
  | detect {thresh chan : Nat} {grown : Bool} : s.node = .waitLocal thresh chan grown → s.lockFree = true →
      s.q.mode = .write → Queue.writeBlocked s.q = true →
      SideMove k s inbox peerEnded .detect ⟨s.detect k (.waitLocal thresh chan grown), inbox, []⟩
  | deadlock {thresh chan : Nat} {grown : Bool} : s.node = .waitLocal thresh chan grown → s.q.mode = .read →
      SideMove k s inbox peerEnded .deadlock ⟨{ s with q := s.q.signal, node := .idle }, inbox, []⟩
  | tagChanged : SideMove k s inbox peerEnded .tagChanged
      ⟨{ s with q := { s.q with pendingD4RTag := true }.signal }, inbox, []⟩
  | tick : SideMove k s inbox peerEnded .tick ⟨{ s with q := s.q.signal }, inbox, []⟩
  | check : s.action = .starting ∨ s.action = .idle → SideMove k s inbox peerEnded .check ⟨s.check, inbox, []⟩
  | readPacket {p : Packet} {rest : Wire} : inbox = .header p :: rest → s.failed = none → s.action = .reading →
      SideMove k s inbox peerEnded .readPacket
        ⟨s.readPacket k p, if (s.readPacket k p).failed = none then rest else inbox, []⟩
  | readDone {eof : Bool} : s.action = .reading → (eof = true → inbox = [] ∧ peerEnded = true) →
      SideMove k s inbox peerEnded (.readDone eof) ⟨(s.readDone eof).1, inbox, (s.readDone eof).2.map .header⟩
  | receive {p : Packet} {ptrs : List Ptr} {numread : Nat} {b : Byte} {rest : Wire} : inbox = .byte b :: rest →
      s.action = .receiving p ptrs numread → s.failed = none → numread < p.dataLength →
      SideMove k s inbox peerEnded .receive ⟨s.receive p ptrs numread b,
        if (s.receive p ptrs numread b).failed = none then rest else inbox, []⟩
  | received {p : Packet} {ptrs : List Ptr} : s.action = .receiving p ptrs p.dataLength → s.lockFree = true →
      SideMove k s inbox peerEnded .received ⟨s.received p, inbox, []⟩
  | sendPass : s.action = .sendLoop →
      SideMove k s inbox peerEnded .sendPass ⟨s.sendPass.1, inbox, s.sendPass.2.map .header⟩
  | send {p : Packet} {ptrs : List Ptr} {numwritten : Nat} : s.action = .sending p ptrs numwritten →
      numwritten < p.dataLength →
      SideMove k s inbox peerEnded .send ⟨(s.send p ptrs numwritten).1, inbox, (s.send p ptrs numwritten).2⟩
  | sent {p : Packet} {ptrs : List Ptr} : s.action = .sending p ptrs p.dataLength → s.lockFree = true →
      SideMove k s inbox peerEnded .sent ⟨s.sent p, inbox, []⟩

/-- The outcomes of a pass of the loop that sends enqueue packets. -/
theorem Side.sendPass_cases (s : Side) :
    s.q.canSendEnqueue = true ∧
      (s.sendPass = (s, []) ∨
        (∃ fault, s.q.beginSendEnqueue s.q.sendEnqueueCount = .error fault ∧ s.sendPass = (s.fail fault, [])) ∨
        ∃ q p ptrs, s.q.beginSendEnqueue s.q.sendEnqueueCount = .ok (q, p, ptrs) ∧
          s.sendPass = ({ s with q := q, action := .sending p ptrs 0 }, [p])) ∨
    s.q.canSendEnqueue = false ∧ s.sendPass = ({ s with q := s.q.finishWrite.1, action := .idle }, s.q.finishWrite.2) := by
  by_cases hcan : s.q.canSendEnqueue = true
  · refine .inl ⟨hcan, ?_⟩
    rw [Side.sendPass, if_pos hcan]
    by_cases hzero : s.q.sendEnqueueCount = 0
    · exact .inl (if_pos hzero)
    · refine .inr ?_
      cases hb : s.q.beginSendEnqueue s.q.sendEnqueueCount with
      | error fault =>
        refine .inl ⟨fault, rfl, (if_neg hzero).trans ?_⟩
        rw [hb]
      | ok r =>
        refine .inr ⟨r.1, r.2.1, r.2.2, rfl, (if_neg hzero).trans ?_⟩
        rw [hb]
  · exact .inr ⟨by simpa using hcan, by rw [Side.sendPass, if_neg hcan]⟩

theorem sideMove_of_sideNext {k : KernelBase} {s : Side} {inbox : Wire} {peerEnded : Bool} {act : SideAct} {r : SideStep}
    (h : sideNext k s inbox peerEnded act = some r) : SideMove k s inbox peerEnded act r := by
  -- an action is taken only when its guard holds
  have hgo : ∀ {P : Prop} [Decidable P] {x : SideStep}, (if P then some x else none) = some r → P ∧ x = r := by
    intro P _ x hx
    split_ifs at hx with hP
    exact ⟨hP, Option.some.inj hx⟩
  cases act with
  | getRawPtr thresh chan =>
    obtain ⟨⟨-, hl, hn, hc, ht⟩, rfl⟩ := hgo h
    exact .getRawPtr hl hn hc ht
  | pass =>
    simp only [sideNext] at h
    split at h
    · rename_i hn
      obtain ⟨-, rfl⟩ := hgo h
      exact .pass hn
    · cases h
  | wakes =>
    obtain ⟨⟨-, hl⟩, rfl⟩ := hgo h
    exact .wakes hl
  | write p off b =>
    obtain ⟨⟨-, hm, -, hp, hoff⟩, rfl⟩ := hgo h
    exact .write hm hp hoff
  | commit count =>
    obtain ⟨⟨-, hl, hn, hc⟩, rfl⟩ := hgo h
    exact .commit hl hn hc
  | grow queueLen maxThresh =>
    obtain ⟨⟨-, hl, hn, hin, hlen, hmt⟩, rfl⟩ := hgo h
    exact .grow hl hn hin hlen hmt
  | shutdown =>
    obtain ⟨⟨-, hl, hn⟩, rfl⟩ := hgo h
    exact .shutdown hl hn
  | detect =>
    simp only [sideNext] at h
    split at h
    · rename_i hn
      obtain ⟨⟨-, hl, -, hm, hb⟩, rfl⟩ := hgo h
      exact .detect hn hl hm hb
    · cases h
  | deadlock =>
    simp only [sideNext] at h
    split at h
    · rename_i hn
      obtain ⟨⟨-, -, -, hm⟩, rfl⟩ := hgo h
      exact .deadlock hn hm
    · cases h
  | tagChanged =>
    obtain ⟨-, rfl⟩ := hgo h
    exact .tagChanged
  | tick =>
    obtain ⟨-, rfl⟩ := hgo h
    exact .tick
  | check =>
    obtain ⟨⟨-, -, hact⟩, rfl⟩ := hgo h
    exact .check (hact.imp id (·.1))
  | readPacket =>
    simp only [sideNext] at h
    split at h
    · obtain ⟨⟨hfail, hact⟩, rfl⟩ := hgo h
      exact .readPacket rfl hfail hact
    · cases h
  | readDone eof =>
    obtain ⟨⟨-, hact, heof⟩, rfl⟩ := hgo h
    exact .readDone hact heof
  | receive =>
    simp only [sideNext] at h
    split at h
    · rename_i p ptrs n b rest hact
      obtain ⟨⟨hfail, hn⟩, rfl⟩ := hgo h
      exact .receive rfl hact hfail hn
    · cases h
  | received =>
    simp only [sideNext] at h
    split at h
    · rename_i p ptrs n hact
      obtain ⟨⟨-, hl, rfl⟩, rfl⟩ := hgo h
      exact .received hact hl
    · cases h
  | sendPass =>
    obtain ⟨⟨-, hact⟩, rfl⟩ := hgo h
    exact .sendPass hact
  | send =>
    simp only [sideNext] at h
    split at h
    · rename_i p ptrs n hact
      obtain ⟨⟨-, hn⟩, rfl⟩ := hgo h
      exact .send hact hn
    · cases h
  | sent =>
    simp only [sideNext] at h
    split at h
    · rename_i p ptrs n hact
      obtain ⟨⟨-, hl, rfl⟩, rfl⟩ := hgo h
      exact .sent hact hl
    · cases h

/-- Both sides, and what each of them has sent that the other one has not read yet. -/
structure PairState where
  side : Mode → Side
  wire : Mode → Wire

/-- A step of the side `mode`. -/
structure PairAct where
  mode : Mode
  act : SideAct
  deriving DecidableEq, Repr

def pairNext (k : KernelBase) (s : PairState) (a : PairAct) : Option PairState :=
  (sideNext k (s.side a.mode) (s.wire a.mode.other) (s.side a.mode.other).q.sentEnd a.act).map fun r =>
    { side := Function.update s.side a.mode r.side
      wire := Function.update (Function.update s.wire a.mode.other r.rest) a.mode (s.wire a.mode ++ r.sent) }

/-- A step of the pair is a step of one side. -/
theorem pairNext_cases {k : KernelBase} {s t : PairState} {a : PairAct} (h : pairNext k s a = some t) :
    ∃ r, sideNext k (s.side a.mode) (s.wire a.mode.other) (s.side a.mode.other).q.sentEnd a.act = some r ∧
      t.side a.mode = r.side ∧ t.side a.mode.other = s.side a.mode.other ∧ t.wire a.mode.other = r.rest ∧
      t.wire a.mode = s.wire a.mode ++ r.sent := by
  rw [pairNext, Option.map_eq_some_iff] at h
  obtain ⟨r, hr, rfl⟩ := h
  have hm : a.mode.other ≠ a.mode := by cases a.mode <;> decide
  exact ⟨r, hr, Function.update_self _ _ _, Function.update_of_ne hm _ _,
    (Function.update_of_ne hm _ _).trans (Function.update_self _ _ _), Function.update_self _ _ _⟩

def sideStart (k : KernelBase) (attr : SimpleQueueAttr) (mode : Mode) : Side where
  q := .create k.malloc mode attr
  node := .idle
  action := .starting
  ptrs := []
  written := fun _ _ => none
  history := fun _ => []
  failed := none

def pairStart (k : KernelBase) (attr : SimpleQueueAttr) : PairState where
  side := sideStart k attr
  wire := fun _ => []

/-- The attributes are `unsigned` values, and there is a channel. -/
def SimpleQueueAttr.Valid (attr : SimpleQueueAttr) : Prop :=
  attr.length < 2 ^ 32 ∧ attr.maxThreshold < 2 ^ 32 ∧ 0 < attr.numChannels

instance (attr : SimpleQueueAttr) : Decidable attr.Valid :=
  inferInstanceAs (Decidable (_ ∧ _ ∧ _))

/-- A remote queue built from any attributes. -/
def remotePair (k : KernelBase) (arithmetic : Arithmetic := .exact) : Machine PairState PairAct where
  init s := ∃ attr : SimpleQueueAttr, attr.Valid ∧ attr.alpha.arithmetic = arithmetic ∧ s = pairStart k attr
  next := pairNext k

/-- One half. -/
def Alpha.half (arithmetic : Arithmetic) : Alpha := ⟨1, 2, by decide, by decide, arithmetic, fun _ => ⟨by decide, 1, rfl⟩⟩

/-- Attributes of a queue with one channel that is split in the middle. -/
def SimpleQueueAttr.halved (length maxThreshold : Nat) (arithmetic : Arithmetic := .exact) : SimpleQueueAttr :=
  ⟨length, maxThreshold, 1, 0, .half arithmetic⟩

/-- A step of the side of the writer. -/
def atWriter (act : SideAct) : PairAct := ⟨.write, act⟩

/-- A step of the side of the reader. -/
def atReader (act : SideAct) : PairAct := ⟨.read, act⟩

end ProcessNetwork
