import ProcessNetwork.PacketHeader
import ProcessNetwork.RemotePair

/-!
# The protocol between the two ends of a remote queue

What matters to the other end: the lengths and counters that the two ends keep about each other, the bytes that are
stored, and the enqueue packet that is on its way.  The rings, the pointers, the program counters of the nodes and the
clocks are gone.  `EndpointStep` lists what can happen to one end, with what it takes from its inbox and what it sends.

The protocol is an abstraction of `RemotePair`: `Side.endpoint` forgets the rest, and `RemoteWriter` and `RemoteReader`
show that every step of a side is a step of the protocol.  The properties of the pair are then invariants of the
protocol.
-/

namespace ProcessNetwork

open Framing (place)

/-- The fields in which an end keeps account of the other one. -/
structure Books where
  alpha : Alpha
  readerlength : Nat
  writerlength : Nat
  bytecount : Nat
  pendingGrow : Bool
  sentEnd : Bool
  dead : Bool
  eof : Bool
  /-- the other end has announced that it is shut down -/
  peerShutdown : Bool
  wrapped : Bool
  overrun : Bool

/-- One end of a remote queue. -/
structure Endpoint extends Books where
  /-- the length of the ring -/
  length : Nat
  maxThreshold : Nat
  numChannels : Nat
  count : Nat
  /-- the contents of the ring -/
  stored : Nat → List Byte
  /-- what the node has enqueued or dequeued -/
  history : Nat → List Byte
  /-- the enqueue packet that is being sent or received, and how many bytes of it are done -/
  packet : Option (Packet × Nat)
  /-- the bytes of that packet that have arrived -/
  arrived : Nat → List Byte
  /-- an operation that threw has left its old ring behind -/
  stale : Bool
  failed : Bool

namespace Packet

/-- A packet with which the end `mode` only informs about blocking or tags. -/
def Informs (mode : Mode) (p : Packet) : Prop :=
  p.dataLength = 0 ∧ (p.type = .d4rTag ∨
    p.type = match mode with
      | .read => .readBlock
      | .write => .writeBlock)

/-- The packet with which the end `mode` announces that it is shut down. -/
def Ends (mode : Mode) (p : Packet) : Prop :=
  p.dataLength = 0 ∧
    p.type = match mode with
      | .read => .endOfRead
      | .write => .endOfWrite

/-- The packets that the end `mode` accepts, given that the other end is shut down or not. -/
def Expected (mode : Mode) (shut : Bool) (p : Packet) : Prop :=
  p.type = .grow ∨ p.type = .d4rTag ∨ shut = false ∧
    match mode with
    | .read => p.type = .enqueue ∨ p.type = .writeBlock ∨ p.type = .endOfWrite
    | .write => p.type = .dequeue ∨ p.type = .readBlock ∨ p.type = .endOfRead

end Packet

namespace Endpoint

/-- The bytes per channel of the packet that is being sent or received. -/
def inPacket (v : Endpoint) : Nat :=
  match v.packet with
  | none => 0
  | some (p, _) => p.count

/-- The position in the stream of packets at this end. -/
def cursor (v : Endpoint) : Cursor Packet :=
  match v.packet with
  | none => .idle
  | some (p, n) => place Packet.dataLength p n

/-- What is stored and not yet sent. -/
def unsent (v : Endpoint) (c : Nat) : List Byte :=
  match v.packet with
  | none => v.stored c
  | some (p, n) => (v.stored c).drop (min p.count (n - c * p.count))

/-- The lengths after a growth. -/
def grow (v : Endpoint) (mode : Mode) (queueLen maxThresh : Nat) (pendingGrow : Bool) : Endpoint :=
  let maxthresh := max v.maxThreshold maxThresh
  { v with
    readerlength := RemoteQueue.queueLength queueLen maxthresh v.alpha .read
    writerlength := RemoteQueue.queueLength queueLen maxthresh v.alpha .write
    length := max v.length (RemoteQueue.queueLength queueLen maxthresh v.alpha mode)
    maxThreshold := maxthresh
    pendingGrow := pendingGrow }

/-- The reasons for which an assertion can fail. -/
def Faulty (v : Endpoint) (mode : Mode) (inbox : Wire) : Prop :=
  v.stale = true ∨ v.eof = true ∧ v.peerShutdown = false ∨
    ∃ p rest, inbox = .header p :: rest ∧
      (¬p.Expected mode v.peerShutdown ∨ p.type = .enqueue ∧ 2 ^ 32 ≤ v.count + p.count)

/-- The packets sent in one section: the pending grow packet, the bytes dequeued, the informing packets, and the
end. -/
structure Report where
  grow : Option Packet
  dequeue : Option Packet
  informs : List Packet
  ends : Option Packet

namespace Report

def packets (r : Report) : List Packet := r.grow.toList ++ r.dequeue.toList ++ r.informs ++ r.ends.toList

/-- The packets fit the books of the end that sends them. -/
structure Fits (r : Report) (b : Books) (count maxThreshold : Nat) (mode : Mode) : Prop where
  grow : ∀ p ∈ r.grow, b.pendingGrow = true ∧ b.sentEnd = false ∧ p.type = .grow ∧ p.dataLength = 0 ∧
    p.queueSize = u32 (b.readerlength + b.writerlength) ∧ p.maxThreshold = maxThreshold
  dequeue : ∀ p ∈ r.dequeue, mode = .read ∧ b.sentEnd = false ∧ count < b.bytecount ∧ p.type = .dequeue ∧
    p.dataLength = 0 ∧ p.count = b.bytecount - count
  informs : ∀ p ∈ r.informs, b.sentEnd = false ∧ p.Informs mode
  ends : ∀ p ∈ r.ends, b.sentEnd = false ∧ p.Ends mode

/-- What sending them does to the books. -/
def send (r : Report) (b : Books) (count : Nat) (dead : Bool) : Books :=
  { b with
    pendingGrow := b.pendingGrow && r.grow.isNone
    bytecount := if r.dequeue.isSome then count else b.bytecount
    sentEnd := b.sentEnd || r.ends.isSome
    dead := dead }

end Report

end Endpoint

open Endpoint in
/-- What can happen at the end `mode` with what is in its inbox: the action, the end after it, what is left of the inbox
and what is sent.  `growth` is the growth that the node makes in this step, and `abandons` says whether its operation
throws and leaves its old ring behind, or `SendEnqueuePacket` begins a packet that is too long. -/
inductive EndpointStep (v : Endpoint) (inbox : Wire) (peerEnded : Bool) (growth : Option (Nat × Nat)) (abandons : Bool) :
    Mode → SideAct → Endpoint → Wire → Wire → Prop
  | quiet {mode : Mode} {act : SideAct} : EndpointStep v inbox peerEnded growth abandons mode act v inbox []
  | fails {mode : Mode} {act : SideAct} : v.Faulty mode inbox →
      EndpointStep v inbox peerEnded growth abandons mode act { v with failed := true } inbox []
  /-- `Enqueue` or `Dequeue` throws. -/
  | throws {mode : Mode} {n : Nat} :
      EndpointStep v inbox peerEnded growth abandons mode (.commit n) { v with stale := abandons } inbox []
  | grows {mode : Mode} {act : SideAct} {queueLen maxThresh : Nat} : growth = some (queueLen, maxThresh) →
      queueLen < 2 ^ 32 → maxThresh < 2 ^ 32 →
      EndpointStep v inbox peerEnded growth abandons mode act (v.grow mode queueLen maxThresh true) inbox []
  | hearsGrow {mode : Mode} {p : Packet} {rest : Wire} : inbox = .header p :: rest → p.type = .grow →
      EndpointStep v inbox peerEnded growth abandons mode .readPacket
        (v.grow mode p.queueSize p.maxThreshold v.pendingGrow) rest []
  | hears {mode : Mode} {p : Packet} {rest : Wire} : inbox = .header p :: rest →
      p.type = .readBlock ∨ p.type = .writeBlock ∨ p.type = .d4rTag →
      EndpointStep v inbox peerEnded growth abandons mode .readPacket v rest []
  | hearsEnd {mode : Mode} {p : Packet} {rest : Wire} : inbox = .header p :: rest → v.peerShutdown = false →
      (p.type = match mode with
        | .read => .endOfWrite
        | .write => .endOfRead) →
      EndpointStep v inbox peerEnded growth abandons mode .readPacket { v with peerShutdown := true } rest []
  /-- The sections of `InternalCheckStatus` that only send. -/
  | reports {mode : Mode} {act : SideAct} {r : Report} {eof dead : Bool} : v.packet = none →
      (eof = true → inbox = [] ∧ peerEnded = true) →
      (r.grow.isSome = true → ∃ b, act = .readDone b) → r.Fits v.toBooks v.count v.maxThreshold mode →
      (dead = true → v.dead = true ∨ v.peerShutdown = true ∧ (v.sentEnd || r.ends.isSome) = true) →
      EndpointStep v inbox peerEnded growth abandons mode act
        { v with toBooks := r.send { v.toBooks with eof := v.eof || eof } v.count dead } inbox (r.packets.map .header)
  -- the writer
  | enqueues {n : Nat} {new : Nat → List Byte} {act : SideAct} : (∀ c < v.numChannels, (new c).length = n) →
      (∀ c, v.numChannels ≤ c → new c = []) →
      EndpointStep v inbox peerEnded growth abandons .write act
        { v with
          count := v.count + n
          stored := fun c => v.stored c ++ new c
          history := fun c => v.history c ++ new c
          stale := false } inbox []
  | hearsDequeue {p : Packet} {rest : Wire} {bytecount : Nat} : inbox = .header p :: rest → p.type = .dequeue →
      v.packet = none → bytecount = sub32 v.bytecount p.count →
      EndpointStep v inbox peerEnded growth abandons .write .readPacket
        { v with
          bytecount := bytecount
          wrapped := v.wrapped || decide (v.bytecount < p.count) } rest []
  | begins {p : Packet} : v.packet = none → v.sentEnd = false → v.dead = false → v.bytecount < v.readerlength →
      p.type = .enqueue → 0 < p.count → p.count ≤ v.count → p.count ≤ v.maxThreshold →
      v.bytecount + p.count ≤ max v.readerlength v.maxThreshold → p.dataLength = u32 (p.count * v.numChannels) →
      (abandons = false → p.dataLength = p.count * v.numChannels) →
      EndpointStep v inbox peerEnded growth abandons .write .sendPass { v with packet := some (p, 0) } inbox [.header p]
  | sends {p : Packet} {n : Nat} {b : Byte} : v.packet = some (p, n) → n < p.dataLength →
      (v.stored (n / p.count))[n % p.count]? = some b →
      EndpointStep v inbox peerEnded growth abandons .write .send { v with packet := some (p, n + 1) } inbox [.byte b]
  | sent {p : Packet} {bytecount : Nat} : v.packet = some (p, p.dataLength) → bytecount = u32 (v.bytecount + p.count) →
      EndpointStep v inbox peerEnded growth abandons .write .sent
        { v with
          packet := none
          bytecount := bytecount
          count := v.count - p.count
          stored := fun c => (v.stored c).drop p.count } inbox []
  -- the reader
  | dequeues {n : Nat} {act : SideAct} : n ≤ v.count →
      EndpointStep v inbox peerEnded growth abandons .read act
        { v with
          count := v.count - n
          stored := fun c => (v.stored c).drop n
          history := fun c => v.history c ++ (v.stored c).take n
          stale := false } inbox []
  | accepts {p : Packet} {rest : Wire} {length maxThreshold : Nat} {overrun : Bool} : inbox = .header p :: rest →
      p.type = .enqueue → v.packet = none → v.peerShutdown = false →
      overrun = (decide (p.count > v.length - v.count) || decide (p.count > v.maxThreshold)) →
      (overrun = false ∧ length = v.length ∧ maxThreshold = v.maxThreshold ∨
        overrun = true ∧ length = max v.length (max (u32 (v.count + p.count)) p.count) ∧
          maxThreshold = max v.maxThreshold p.count) →
      EndpointStep v inbox peerEnded growth abandons .read .readPacket
        { v with
          length := length
          maxThreshold := maxThreshold
          overrun := v.overrun || overrun
          packet := some (p, 0)
          arrived := fun _ => [] } rest []
  | receives {p : Packet} {n : Nat} {b : Byte} {rest : Wire} : inbox = .byte b :: rest → v.packet = some (p, n) →
      n < p.dataLength →
      EndpointStep v inbox peerEnded growth abandons .read .receive
        { v with
          packet := some (p, n + 1)
          arrived := Function.update v.arrived (n / p.count) (v.arrived (n / p.count) ++ [b]) } rest []
  /-- What has not arrived of a region is what was in it before. -/
  | received {p : Packet} {bytecount : Nat} {new : Nat → List Byte} : v.packet = some (p, p.dataLength) →
      bytecount = u32 (v.bytecount + p.count) → (p.dataLength = p.count * v.numChannels → new = v.arrived) →
      EndpointStep v inbox peerEnded growth abandons .read .received
        { v with
          packet := none
          arrived := fun _ => []
          bytecount := bytecount
          count := v.count + p.count
          stored := fun c => v.stored c ++ new c } inbox []

/-! ### The abstraction -/

def RemoteQueue.books (q : RemoteQueue) : Books where
  alpha := q.alpha
  readerlength := q.readerlength
  writerlength := q.writerlength
  bytecount := q.bytecount
  pendingGrow := q.pendingGrow
  sentEnd := q.sentEnd
  dead := q.dead
  eof := q.eof
  peerShutdown := match q.mode with
    | .read => q.writeshutdown
    | .write => q.readshutdown
  wrapped := q.wrapped
  overrun := q.overrun

/-! ### What the node does -/

namespace RemoteQueue

variable (q : RemoteQueue)

/-- `UnlockedGrow` gets past its first test and does not have to wait. -/
def growth (queueLen maxThresh : Nat) : Option (Nat × Nat) :=
  if queueLen ≤ q.unlockedQueueLength ∧ maxThresh ≤ q.queue.maxThreshold ∨ (q.pendingGrow && !q.dead) = true then none
  else some (queueLen, maxThresh)

/-- The ring cannot serve the request of the node. -/
def refuses (thresh : Nat) : Bool :=
  match q.mode with
  | .read => !q.indequeue && (decide (q.queue.count < thresh) || decide (q.queue.maxThreshold < thresh))
  | .write => !q.inenqueue && (decide (q.queue.freespace < thresh) || decide (q.queue.maxThreshold < thresh))

/-- The peer of the node is known to be blocked, and the loop has not yet grown the queue for it. -/
def crossed (grown : Bool) : Bool :=
  match q.mode with
  | .read => Queue.writeBlocked q
  | .write => !grown && Queue.readBlocked q

def peerRequest : Nat :=
  match q.mode with
  | .read => q.writerequest
  | .write => q.readrequest

/-- What a pass of the loop of `GetRawDequeuePtr` or `GetRawEnqueuePtr` calls `UnlockedGrow` with. -/
def passRequest (k : KernelBase) (thresh : Nat) (grown : Bool) : Option (Nat × Nat) :=
  if q.refuses thresh && !(q.readshutdown || q.writeshutdown) && k.growQueueMaxThreshold then
    if q.queue.maxThreshold < thresh then some (u32 (2 * thresh), thresh)
    else if q.crossed grown then some (u32 (q.peerRequest + thresh), thresh)
    else none
  else none

end RemoteQueue

/-- The growth that the node makes in a step, if it makes one. -/
def Side.growth (k : KernelBase) (s : Side) : SideAct → Option (Nat × Nat)
  | .grow queueLen maxThresh => s.q.growth queueLen maxThresh
  | .detect => s.q.growth (u32 (k.calculateGrowSize s.q.unlockedCount s.q.writerequest)) s.q.writerequest
  | .pass =>
    match s.node with
    | .loop thresh _ grown => (s.q.passRequest k thresh grown).bind fun r => s.q.growth r.1 r.2
    | _ => none
  | .wakes =>
    match s.node with
    | .growing queueLen maxThresh _ => if s.q.pendingGrow && !s.q.dead then none else some (queueLen, maxThresh)
    | _ => none
  | _ => none

/-- `Enqueue` or `Dequeue` throws because the node has shut down its end, and the ring in which its region lies has been
replaced, or `SendEnqueuePacket` begins a packet whose bytes are not counted right in `WriteBytes`. -/
def Side.abandons (s : Side) : SideAct → Bool
  | .commit _ =>
    match s.q.mode with
    | .read => s.q.readshutdown && s.q.dequeueUseOld
    | .write => s.q.writeshutdown && s.q.enqueueUseOld
  | .sendPass =>
    s.q.canSendEnqueue && decide (2 ^ 32 ≤ headerLength + s.q.sendEnqueueCount * s.q.queue.numChannels)
  | _ => false

/-! ### What the protocol sees -/

namespace Side

def packet (s : Side) : Option (Packet × Nat) :=
  match s.action with
  | .receiving p _ n => some (p, n)
  | .sending p _ n => some (p, n)
  | _ => none

/-- The function on the channels of this queue only. -/
def onChannels (s : Side) (f : Nat → List Byte) (c : Nat) : List Byte := if c < s.q.queue.numChannels then f c else []

/-- The bytes of the packet that is being received. -/
def arrived (s : Side) (c : Nat) : List Byte :=
  match s.action with
  | .receiving p _ n => (s.q.enqueueRegion c p.count).take (n - c * p.count)
  | _ => []

/-- The operation of the node has thrown and left its old ring behind. -/
def stale (s : Side) : Bool :=
  match s.q.mode with
  | .read => !s.q.indequeue && s.q.dequeueUseOld
  | .write => !s.q.inenqueue && s.q.enqueueUseOld

/-- What the protocol sees of a side. -/
def endpoint (s : Side) : Endpoint where
  toBooks := s.q.books
  length := s.q.queue.queueLength
  maxThreshold := s.q.queue.maxThreshold
  numChannels := s.q.queue.numChannels
  count := s.q.queue.count
  stored := s.onChannels s.q.queue.contents
  history := s.onChannels s.history
  packet := s.packet
  arrived := s.onChannels s.arrived
  stale := s.stale
  failed := s.failed.isSome

end Side

end ProcessNetwork
