import ProcessNetwork.Lib.Framing
import ProcessNetwork.Lib.Rounding
import ProcessNetwork.QueueBase

/-!
# `CPN::RemoteQueue`

A remote queue is a `ThresholdQueue` split in half across a socket: one object in mode `write` in the process of the
writer and one in mode `read` in the process of the reader.  This module has the methods of `CPN/RemoteQueue.cc` as
functions of one object: the packet handlers, the functions that send packets, the overridden queue methods, and the
sections of `InternalCheckStatus` between the points where it gives up the lock.  The two objects are put together in
`RemotePair`.

All `unsigned` values are below `2 ^ 32`; sums are reduced, and subtractions of byte counts wrap (`sub32`) and leave a
mark in `wrapped`.  The mark `overrun` records that `EnqueuePacket` had to grow the queue for a packet.  The product of a
length and `alpha` is exact or rounded to a `double`, as the `Arithmetic` says, and the clocks do not wrap.  The header of a
packet is one item on the wire, and the tag of a D4R packet travels with its header.

The length of a payload is an `unsigned` product.  Where the header and the payload have `2 ^ 32` bytes or more, the total
in `WriteBytes` wraps as well: what the socket gets is cut off, or the assertion behind the loop fails (`PartialTransfer`).
Here it gets as many bytes as the header announces.
-/

namespace ProcessNetwork

/-- How the product of a length and `alpha` is computed: as if `double` were exact, or as it is. -/
inductive Arithmetic
  | exact
  | rounded
  deriving DecidableEq, Repr

/-- The part of a remote queue that is on the side of the writer, a fraction in `[0, 1]`. -/
structure Alpha where
  num : Nat
  den : Nat
  den_pos : 0 < den
  num_le : num ≤ den
  arithmetic : Arithmetic
  /-- the value of a `double` -/
  binary : arithmetic = .rounded → num < 2 ^ 53 ∧ ∃ e, den = 2 ^ e
  deriving DecidableEq, Repr

/-- `unsigned(((double)length)*alpha)` -/
def Alpha.share (alpha : Alpha) (length : Nat) : Nat :=
  match alpha.arithmetic with
  | .exact => length * alpha.num / alpha.den
  | .rounded => roundTo 53 (length * alpha.num) / alpha.den

inductive Mode
  | read
  | write
  deriving DecidableEq, Repr

def Mode.other : Mode → Mode
  | .read => .write
  | .write => .read

/-- The attributes from which both ends of a queue are constructed. -/
structure SimpleQueueAttr where
  length : Nat
  maxThreshold : Nat
  numChannels : Nat
  maxWriteThreshold : Nat
  alpha : Alpha

inductive PacketType
  | enqueue
  | dequeue
  | readBlock
  | writeBlock
  | endOfWrite
  | endOfRead
  | grow
  | d4rTag
  | idReader
  | idWriter
  deriving DecidableEq, Repr

/-- The fields of a packet header.  `requested`, `maxThresh` and `count` are one field of the union (`arg`). -/
structure Packet where
  type : PacketType
  dataLength : Nat
  arg : Nat
  queueSize : Nat
  readclock : Nat
  writeclock : Nat
  deriving DecidableEq, Repr

namespace Packet

/-- `InitPacket` clears the header. -/
def init (dataLength : Nat) (type : PacketType) : Packet := ⟨type, dataLength, 0, 0, 0, 0⟩

def count (p : Packet) : Nat := p.arg

def requested (p : Packet) : Nat := p.arg

def maxThreshold (p : Packet) : Nat := p.arg

end Packet

structure RemoteQueue extends ThresholdQueue where
  mode : Mode
  alpha : Alpha
  maxwritethreshold : Nat
  pendingAction : Bool
  clock : Nat
  readclock : Nat
  writeclock : Nat
  readerlength : Nat
  writerlength : Nat
  bytecount : Nat
  pendingBlock : Bool
  sentEnd : Bool
  pendingGrow : Bool
  pendingD4RTag : Bool
  tagUpdated : Bool
  dead : Bool
  /-- `sock.Eof()` -/
  eof : Bool
  /-- `sock.Closed()` -/
  closed : Bool
  /-- a subtraction of byte counts has wrapped -/
  wrapped : Bool
  /-- `EnqueuePacket` has had to grow the queue for a packet -/
  overrun : Bool

namespace RemoteQueue

/-- `QueueLength`, the share of one side in a queue of the given length. -/
def queueLength (length maxthresh : Nat) (alpha : Alpha) : Mode → Nat
  | .read => max (length - alpha.share length) maxthresh
  | .write => max (alpha.share length) maxthresh

def create (malloc : Malloc) (mode : Mode) (attr : SimpleQueueAttr) : RemoteQueue where
  toThresholdQueue :=
    .create malloc (queueLength attr.length attr.maxThreshold attr.alpha mode) attr.maxThreshold attr.numChannels
  mode := mode
  alpha := attr.alpha
  maxwritethreshold := attr.maxWriteThreshold
  pendingAction := false
  clock := 0
  readclock := 0
  writeclock := 0
  readerlength := queueLength attr.length attr.maxThreshold attr.alpha .read
  writerlength := queueLength attr.length attr.maxThreshold attr.alpha .write
  bytecount := 0
  pendingBlock := false
  sentEnd := false
  pendingGrow := false
  pendingD4RTag := false
  tagUpdated := false
  dead := false
  eof := false
  closed := false
  wrapped := false
  overrun := false

variable (q : RemoteQueue)

/-! ### The overridden methods -/

def signal : RemoteQueue := { q with pendingAction := true, cond := fun _ => false }

def unlockedCount : Nat :=
  match q.mode with
  | .read => q.queue.count
  | .write => u32 (q.queue.count + q.bytecount)

def unlockedQueueLength : Nat := u32 (q.readerlength + q.writerlength)

/-- Both `UnlockedGrow` and `GrowPacket` set the lengths of the two sides and grow the local part. -/
def growTo (malloc : Malloc) (queueLen maxThresh : Nat) : Except Fault RemoteQueue := do
  let maxthresh := max q.queue.maxThreshold maxThresh
  let readerlength := queueLength queueLen maxthresh q.alpha .read
  let writerlength := queueLength queueLen maxthresh q.alpha .write
  let newlen := queueLength queueLen maxthresh q.alpha q.mode
  let base ← q.toThresholdQueue.unlockedGrow malloc newlen maxthresh
  .ok { q with toThresholdQueue := base, readerlength := readerlength, writerlength := writerlength }

/-- The end of `UnlockedGrow`, after the wait for the pending packet. -/
def finishGrow (malloc : Malloc) (queueLen maxThresh : Nat) : Except Fault RemoteQueue := do
  let q ← q.growTo malloc queueLen maxThresh
  .ok { q with pendingGrow := true }.signal

def unlockedGrow (k : KernelBase) (queueLen maxThresh : Nat) : Except Fault (GrowResult RemoteQueue) :=
  if queueLen ≤ q.unlockedQueueLength ∧ maxThresh ≤ q.queue.maxThreshold then .ok (.done q)
  else if q.pendingGrow && !q.dead then .ok (.waits q.signal)
  else (q.finishGrow k.malloc queueLen maxThresh).map .done

instance : Queue RemoteQueue where
  threshold q := q.toThresholdQueue
  withBase q b := { q with toThresholdQueue := { q.toThresholdQueue with toQueueBase := b } }
  unlockedCount := unlockedCount
  unlockedGrow k q := q.unlockedGrow k
  signal := signal

/-! ### Sending packets -/

def setupPacket (p : Packet) : RemoteQueue × Packet :=
  let clock := q.clock + 1
  match q.mode with
  | .read => ({ q with clock := clock }, { p with readclock := clock, writeclock := q.writeclock })
  | .write => ({ q with clock := clock }, { p with readclock := q.readclock, writeclock := clock })

/-- The number of bytes per channel of the next enqueue packet. -/
def sendEnqueueCount : Nat :=
  let maxthresh := q.queue.maxThreshold
  let expectedfree := sub32 (max q.readerlength maxthresh) q.bytecount
  let maxwrite := if q.maxwritethreshold / q.queue.numChannels = 0 then 1 else q.maxwritethreshold / q.queue.numChannels
  let count := if q.maxwritethreshold > 0 && q.queue.count > maxwrite then maxwrite else q.queue.count
  let count := if count > maxthresh then maxthresh else count
  if count > expectedfree then expectedfree else count

/-- The pointers to the regions of all channels; each has to be there. -/
def channelPtrs (get : Nat → Except Fault (Option Ptr)) (text : String) : Nat → Except Fault (List Ptr)
  | 0 => .ok []
  | chan + 1 => do
    let ptrs ← channelPtrs get text chan
    match ← get chan with
    | none => .error (.assert text)
    | some ptr => .ok (ptrs ++ [ptr])

/-- `SendEnqueuePacket` up to the point where it gives up the lock, for `count` bytes per channel. -/
def beginSendEnqueue (count : Nat) : Except Fault (RemoteQueue × Packet × List Ptr) := do
  let wrapped := q.wrapped || decide (max q.readerlength q.queue.maxThreshold < q.bytecount)
  let (q, p) := { q with wrapped := wrapped }.setupPacket (.init (u32 (count * q.queue.numChannels)) .enqueue)
  let p := { p with arg := count }
  let ptrs ← channelPtrs (fun chan => q.internalGetRawDequeuePtr count chan) "iov.iov_base" q.queue.numChannels
  .ok ({ q with indequeue := true }, p, ptrs)

/-- `SendEnqueuePacket` from the point where it has the lock again. -/
def endSendEnqueue (count : Nat) : RemoteQueue :=
  let base := { q.toThresholdQueue with indequeue := false }.internalDequeue count
  Queue.notifyFreespace { q with toThresholdQueue := base, bytecount := u32 (q.bytecount + count) }

def sendDequeuePacket : RemoteQueue × Packet :=
  let count := sub32 q.bytecount q.queue.count
  let wrapped := q.wrapped || decide (q.bytecount < q.queue.count)
  let (q, p) := q.setupPacket (.init 0 .dequeue)
  ({ q with bytecount := sub32 q.bytecount count, wrapped := wrapped }, { p with arg := count })

def sendReadBlockPacket : RemoteQueue × Packet :=
  let (q, p) := q.setupPacket (.init 0 .readBlock)
  (q, { p with arg := q.readrequest })

def sendWriteBlockPacket : RemoteQueue × Packet :=
  let (q, p) := q.setupPacket (.init 0 .writeBlock)
  (q, { p with arg := q.writerequest })

def sendEndOfWritePacket : RemoteQueue × Packet := q.setupPacket (.init 0 .endOfWrite)

def sendEndOfReadPacket : RemoteQueue × Packet := q.setupPacket (.init 0 .endOfRead)

def sendGrowPacket : RemoteQueue × Packet :=
  let (q, p) := q.setupPacket (.init 0 .grow)
  (q, { p with queueSize := u32 (q.readerlength + q.writerlength), arg := q.queue.maxThreshold })

def sendD4RTagPacket : RemoteQueue × Packet := q.setupPacket (.init 0 .d4rTag)

/-! ### Packet handlers -/

def updateClock (p : Packet) : RemoteQueue :=
  { q with
    writeclock := p.writeclock
    readclock := p.readclock
    clock := max (match q.mode with
      | .read => p.writeclock
      | .write => p.readclock) q.clock + 1 }

/-- The queue would have to grow for a packet of `count` bytes per channel. -/
def tooLarge (count : Nat) : Bool := decide (count > q.queue.freespace) || decide (count > q.queue.maxThreshold)

/-- `EnqueuePacket` silently grows the local part for a packet that is too large. -/
def makeRoom (malloc : Malloc) (count : Nat) : Except Fault ThresholdQueue :=
  if q.tooLarge count then q.toThresholdQueue.unlockedGrow malloc (u32 (q.queue.count + count)) count
  else .ok q.toThresholdQueue

/-- `EnqueuePacket` up to the point where it gives up the lock. -/
def beginEnqueuePacket (malloc : Malloc) (p : Packet) : Except Fault (RemoteQueue × List Ptr) := do
  let q := q.updateClock p
  ensure (q.mode = .read) "mode == READ"
  ensure (!q.writeshutdown) "!writeshutdown"
  let base ← q.makeRoom malloc p.count
  let q := { q with toThresholdQueue := base, overrun := q.overrun || q.tooLarge p.count }
  let ptrs ← channelPtrs (fun chan => q.internalGetRawEnqueuePtr p.count chan) "Internal throttle failed!"
    q.queue.numChannels
  .ok ({ q with inenqueue := true }, ptrs)

/-- `EnqueuePacket` from the point where it has the lock again. -/
def endEnqueuePacket (count : Nat) : Except Fault RemoteQueue := do
  let base ← { q.toThresholdQueue with inenqueue := false }.internalEnqueue count
  .ok (Queue.notifyData
    { q with
      toThresholdQueue := { base with writerequest := 0 }
      bytecount := u32 (q.bytecount + count) })

def dequeuePacket (p : Packet) : Except Fault RemoteQueue := do
  let q := q.updateClock p
  ensure (q.mode = .write) "mode == WRITE"
  ensure (!q.readshutdown) "!readshutdown"
  .ok { q with
    readrequest := 0
    bytecount := sub32 q.bytecount p.count
    wrapped := q.wrapped || decide (q.bytecount < p.count) }

def readBlockPacket (k : KernelBase) (p : Packet) : Except Fault RemoteQueue := do
  let q := q.updateClock p
  ensure (q.mode = .write) "mode == WRITE"
  ensure (!q.readshutdown) "!readshutdown"
  let blocked := p.requested > u32 (q.queue.count + q.bytecount)
  .ok { q with readrequest := p.requested, pendingD4RTag := q.pendingD4RTag || (blocked && k.useD4R) }

def writeBlockPacket (k : KernelBase) (p : Packet) : Except Fault RemoteQueue := do
  let q := q.updateClock p
  ensure (q.mode = .read) "mode == READ"
  ensure (!q.writeshutdown) "!writeshutdown"
  let blocked := p.requested > sub32 q.readerlength q.queue.count || q.queue.count > q.readerlength
  .ok { q with writerequest := p.requested, pendingD4RTag := q.pendingD4RTag || (blocked && k.useD4R) }

def endOfWritePacket (p : Packet) : Except Fault RemoteQueue := do
  let q := q.updateClock p
  ensure (q.mode = .read) "mode == READ"
  ensure (!q.writeshutdown) "!writeshutdown"
  .ok (Queue.unlockedShutdownWriter q)

def endOfReadPacket (p : Packet) : Except Fault RemoteQueue := do
  let q := q.updateClock p
  ensure (q.mode = .write) "mode == WRITE"
  ensure (!q.readshutdown) "!readshutdown"
  .ok (Queue.unlockedShutdownReader q)

def growPacket (malloc : Malloc) (p : Packet) : Except Fault RemoteQueue :=
  (q.updateClock p).growTo malloc p.queueSize p.maxThreshold

/-- The tag itself is not part of the model; its arrival is, since a blocked thread waits for it. -/
def d4rTagPacket (p : Packet) : RemoteQueue := { q.updateClock p with tagUpdated := true }.signal

/-- `FirePacket`, for all packets but the enqueue packet, which gives up the lock. -/
def firePacket (k : KernelBase) (p : Packet) : Except Fault RemoteQueue :=
  match p.type with
  | .enqueue => .error (.assert "EnqueuePacket")
  | .dequeue => q.dequeuePacket p
  | .readBlock => q.readBlockPacket k p
  | .writeBlock => q.writeBlockPacket k p
  | .endOfWrite => q.endOfWritePacket p
  | .endOfRead => q.endOfReadPacket p
  | .grow => q.growPacket k.malloc p
  | .d4rTag => .ok (q.d4rTagPacket p)
  | .idReader => .error (.assert "Unexpected packet")
  | .idWriter => .error (.assert "Unexpected packet")

/-! ### The sections of `InternalCheckStatus` -/

/-- A section of code that sends packets: the queue after it and what it sends. -/
abbrev Sends := RemoteQueue × List Packet

def Sends.andThen (r : Sends) (f : RemoteQueue → Sends) : Sends :=
  let (q, ps) := f r.1
  (q, r.2 ++ ps)

/-- Send one packet and then set a flag, if the condition holds. -/
def sendIf (b : Bool) (send : RemoteQueue → RemoteQueue × Packet) (done : RemoteQueue → RemoteQueue) : Sends :=
  if b then
    let (q, p) := send q
    (done q, [p])
  else (q, [])

/-- After `Read()`: the pending grow packet. -/
def sendPendingGrow : Sends :=
  q.sendIf (q.pendingGrow && !q.sentEnd) sendGrowPacket fun q => { q with pendingGrow := false }

/-- The condition of the loop that sends enqueue packets. -/
def canSendEnqueue : Bool := q.queue.count ≠ 0 && decide (q.bytecount < q.readerlength) && !q.dead

/-- The packet about a blocked thread, unless the peer has unblocked it meanwhile. -/
def sendPendingBlock : Sends :=
  if q.pendingBlock then
    match q.mode with
    | .read => (q.sendIf (q.readrequest > q.queue.count) sendReadBlockPacket id).andThen
        fun q => ({ q with pendingBlock := false }, [])
    | .write => (q.sendIf (q.writerequest > q.queue.freespace) sendWriteBlockPacket id).andThen
        fun q => ({ q with pendingBlock := false }, [])
  else (q, [])

def sendPendingD4RTag : Sends :=
  let shut := match q.mode with
    | .read => q.readshutdown
    | .write => q.writeshutdown
  q.sendIf (q.pendingD4RTag && !shut) sendD4RTagPacket fun q => { q with pendingD4RTag := false }

/-- `sock.Close(); dead = true;` -/
def close : RemoteQueue := { q with closed := true, dead := true }

/-- The part of the branch for mode `write` after the loop that sends enqueue packets. -/
def finishWrite : Sends :=
  if !q.sentEnd && q.dead then (q, [])
  else
    let r : Sends := if q.sentEnd then (q, []) else q.sendPendingBlock.andThen sendPendingD4RTag
    let r := r.andThen fun q =>
      q.sendIf (q.writeshutdown && !q.sentEnd && q.queue.count = 0) sendEndOfWritePacket fun q => { q with sentEnd := true }
    r.andThen fun q =>
      if q.readshutdown then
        (q.sendIf (!q.sentEnd) sendEndOfWritePacket fun q => { q with sentEnd := true }).andThen fun q => (q.close, [])
      else (q, [])

/-- The branch for mode `read`. -/
def finishRead : Sends :=
  let r : Sends := if q.sentEnd then (q, []) else
    (((q.sendIf (q.bytecount > q.queue.count) sendDequeuePacket id).andThen sendPendingBlock).andThen
      sendPendingD4RTag).andThen fun q =>
        q.sendIf q.readshutdown sendEndOfReadPacket fun q => { q with sentEnd := true }
  r.andThen fun q =>
    if q.writeshutdown then
      (q.sendIf (!q.sentEnd) sendEndOfReadPacket fun q => { q with sentEnd := true }).andThen fun q => (q.close, [])
    else (q, [])

end RemoteQueue

end ProcessNetwork
