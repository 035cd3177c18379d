import ProcessNetwork.Lib.Cells
import ProcessNetwork.Lib.Unsigned
import ProcessNetwork.RingContents

/-!
# `ThresholdQueueBase` on a `MirrorBufferSet`

The queue of `ThresholdQueue/ThresholdQueueBase.cc` with elements of `elementSize` bytes, on `malloc` or on the mirrored
buffers of `MirrorBufferSet/MirrorBufferSet.cc`.  The memory of the queue is one block: what `malloc` returns, or the file
that is mapped.  `place` says to which byte of the block an address leads; `mmap` is taken to lead the buffer `buf` of
the set
and the mirror behind it to the bytes of the file from `buf * bufferSize` on.

Sizes are `unsigned long` and wrap.  The indices stay below four times the length and are natural numbers.

`Fifo` is what the queue is for: one list of bytes for each channel.  A byte that was enqueued and not written is `none`.
-/

namespace ProcessNetwork.MirroredQueue

/-- A size that is not a multiple of the page size is rounded up. -/
def roundUp (pageSize size : Nat) : Nat :=
  if size % pageSize ≠ 0 then u64 (size + (pageSize - size % pageSize)) else size

structure MirrorBufferSet where
  bufferSize : Nat
  mirrorSize : Nat
  numBuffers : Int

namespace MirrorBufferSet

/-- The number of buffers is converted to an `int`. -/
def create (pageSize bufferSz mirrorSz nBuffers : Nat) : MirrorBufferSet :=
  ⟨roundUp pageSize bufferSz, roundUp pageSize mirrorSz, Int.bmod nBuffers (2 ^ 32)⟩

/-- The bytes that are mapped. -/
def numBytes (s : MirrorBufferSet) : Nat := ((u64 (s.bufferSize + s.mirrorSize) * s.numBuffers) % 2 ^ 64).toNat

/-- The byte of the file to which the byte `a` of the set leads. -/
def place (s : MirrorBufferSet) (a : Nat) : Nat :=
  let buf := a / (s.bufferSize + s.mirrorSize)
  let offset := a % (s.bufferSize + s.mirrorSize)
  buf * s.bufferSize + if offset < s.bufferSize then offset else offset - s.bufferSize

end MirrorBufferSet

structure ThresholdQueueAttr where
  queueLength : Nat
  maxThreshold : Nat
  numChannels : Nat
  chanOffset : Nat
  baseOffset : Nat

/-- `base` is the address of the first channel in the set, or in what `malloc` returned. -/
structure ThresholdQueueBase where
  elementSize : Nat
  queueLength : Nat
  maxThreshold : Nat
  numChannels : Nat
  channelStride : Nat
  mbs : Option MirrorBufferSet
  base : Nat
  head : Nat
  tail : Nat
  block : Nat → Byte

namespace ThresholdQueueBase

/-- `AllocateBuf` with a `MirrorBufferSet`. -/
def allocateMirrored (pageSize : Nat) (block : Nat → Byte)
    (elementSize queueLen maxThresh numChans baseOffset chanOffset : Nat) : ThresholdQueueBase :=
  let maxThresh := max maxThresh 1
  let queueLen := max queueLen maxThresh
  let offsets := u64 (baseOffset + u64 (sub64 numChans 1 * chanOffset))
  let bufSz := u64 (queueLen * elementSize)
  let mirSz := u64 (u64 (maxThresh - 1 + offsets) * elementSize)
  let mbs := MirrorBufferSet.create pageSize bufSz mirSz numChans
  let queueLength := mbs.bufferSize / elementSize
  let maxThreshold := mbs.mirrorSize / elementSize + 1
  { elementSize := elementSize
    queueLength := queueLength
    maxThreshold := min (sub64 maxThreshold offsets) queueLength
    numChannels := numChans
    channelStride := u64 (queueLength + maxThreshold - 1 + chanOffset)
    mbs := some mbs
    base := baseOffset
    head := 0
    tail := 0
    block := block }

/-- `AllocateBuf` without one. -/
def allocatePlain (block : Nat → Byte) (elementSize queueLen maxThresh numChans : Nat) : ThresholdQueueBase :=
  let maxThresh := max maxThresh 1
  let queueLen := max queueLen maxThresh
  { elementSize := elementSize
    queueLength := queueLen
    maxThreshold := maxThresh
    numChannels := numChans
    channelStride := u64 (queueLen + maxThresh - 1)
    mbs := none
    base := 0
    head := 0
    tail := 0
    block := block }

/-- The constructor with attributes that ask for a `MirrorBufferSet`. -/
def create (pageSize : Nat) (block : Nat → Byte) (elemSize : Nat) (attr : ThresholdQueueAttr) : ThresholdQueueBase :=
  let maxThreshold := max attr.maxThreshold 1
  let queueLength := max attr.queueLength maxThreshold
  allocateMirrored pageSize block elemSize queueLength maxThreshold attr.numChannels
    (attr.baseOffset % pageSize / elemSize) (attr.chanOffset / elemSize)

/-- The bytes that the queue has. -/
def extent (q : ThresholdQueueBase) : Nat :=
  match q.mbs with
  | some s => s.numBytes
  | none => u64 (u64 (q.channelStride * q.numChannels) * q.elementSize)

def place (q : ThresholdQueueBase) (a : Nat) : Nat :=
  match q.mbs with
  | some s => s.place a
  | none => a

def count (q : ThresholdQueueBase) : Nat :=
  let count := (2 * q.queueLength - q.head + q.tail) % q.queueLength
  if count ≠ 0 then count else if q.head = q.tail then 0 else q.queueLength

def freespace (q : ThresholdQueueBase) : Nat := q.queueLength - q.count

/-- The address of an element. -/
def ptr (q : ThresholdQueueBase) (chan idx : Nat) : Nat := q.base + (chan * q.channelStride + idx) * q.elementSize

def getRawEnqueuePtr (q : ThresholdQueueBase) (thresh chan : Nat) : Option Nat :=
  if thresh > q.freespace ∨ thresh > q.maxThreshold then none
  else some (q.ptr chan (q.tail % q.queueLength))

def getRawDequeuePtr (q : ThresholdQueueBase) (thresh chan : Nat) : Option Nat :=
  if thresh > q.count ∨ thresh > q.maxThreshold then none
  else some (q.ptr chan (q.head % q.queueLength))

/-- Without a `MirrorBufferSet` the new elements are copied to the mirror and from it. -/
def enqueue (q : ThresholdQueueBase) (count : Nat) : ThresholdQueueBase :=
  let idx := q.tail % q.queueLength
  let countUp :=
    if idx + count < q.maxThreshold - 1 then count
    else if idx < q.maxThreshold - 1 then q.maxThreshold - 1 - idx
    else 0
  let countDn := if idx + count > q.queueLength then idx + count - q.queueLength else 0
  { q with
    block :=
      if q.mbs.isNone ∧ (countUp ≠ 0 ∨ countDn ≠ 0) then
        forChannels q.numChannels
          (fun chan m =>
            let chanBase := q.base + chan * q.channelStride * q.elementSize
            let up := memcpy m (chanBase + (idx + q.queueLength) * q.elementSize) m (chanBase + idx * q.elementSize)
              (countUp * q.elementSize)
            memcpy up chanBase up (chanBase + q.queueLength * q.elementSize) (countDn * q.elementSize))
          q.block
      else q.block
    tail := (q.tail + count) % (2 * q.queueLength) }

def dequeue (q : ThresholdQueueBase) (count : Nat) : ThresholdQueueBase :=
  { q with head := (q.head + count) % (2 * q.queueLength) }

/-- What is written through a pointer: `w i` is the byte at `a + i`, unless it is not written. -/
def store (q : ThresholdQueueBase) (a n : Nat) (w : Nat → Option Byte) : ThresholdQueueBase :=
  { q with block := scatter (fun i => q.place (a + i)) w n q.block }

/-- What is read through a pointer. -/
def load (q : ThresholdQueueBase) (a n : Nat) : List Byte := (List.range n).map fun i => q.block (q.place (a + i))

end ThresholdQueueBase

/-! ### Runs -/

/-- What a client does.  `put` asks for pointers with the threshold `thresh` for the channels, writes through each of
them and
enqueues; byte `i` from the pointer of channel `c` on becomes `w c i`, unless it is not written.  `take` asks for pointers,
reads `thresh` elements through each of them and dequeues. -/
inductive Act
  | put (thresh : Nat) (chans : List Nat) (w : Nat → Nat → Option Byte) (count : Nat)
  | take (thresh : Nat) (chans : List Nat) (count : Nat)

/-- What it gets: whether it got the pointers, and the bytes that it read of each channel. -/
inductive Out
  | refused
  | done
  | bytes (reads : List (List Byte))
  deriving DecidableEq

/-- An access outside of what the queue has. -/
inductive Fault
  | outOfBounds

namespace ThresholdQueueBase

def putAll (q : ThresholdQueueBase) (thresh : Nat) (w : Nat → Nat → Option Byte) :
    List Nat → Except Fault (Option ThresholdQueueBase)
  | [] => .ok (some q)
  | chan :: chans =>
    match q.getRawEnqueuePtr thresh chan with
    | none => .ok none
    | some dst =>
      if dst + thresh * q.elementSize ≤ q.extent then
        putAll (q.store dst (thresh * q.elementSize) (w chan)) thresh w chans
      else .error .outOfBounds

def takeAll (q : ThresholdQueueBase) (thresh : Nat) : List Nat → Except Fault (Option (List (List Byte)))
  | [] => .ok (some [])
  | chan :: chans =>
    match q.getRawDequeuePtr thresh chan with
    | none => .ok none
    | some src =>
      if src + thresh * q.elementSize ≤ q.extent then do
        match ← takeAll q thresh chans with
        | none => .ok none
        | some reads => .ok (some (q.load src (thresh * q.elementSize) :: reads))
      else .error .outOfBounds

def act (q : ThresholdQueueBase) : Act → Except Fault (ThresholdQueueBase × Out)
  | .put thresh chans w count => do
    match ← q.putAll thresh w chans with
    | none => .ok (q, .refused)
    | some q => .ok (q.enqueue count, .done)
  | .take thresh chans count => do
    match ← q.takeAll thresh chans with
    | none => .ok (q, .refused)
    | some reads => .ok (q.dequeue count, .bytes reads)

def run (q : ThresholdQueueBase) : List Act → Except Fault (ThresholdQueueBase × List Out)
  | [] => .ok (q, [])
  | a :: acts => do
    let (q, out) ← q.act a
    let (q, outs) ← run q acts
    .ok (q, out :: outs)

end ThresholdQueueBase

/-! ### One queue of bytes for each channel -/

structure Fifo where
  elementSize : Nat
  capacity : Nat
  maxThreshold : Nat
  numChannels : Nat
  count : Nat
  channels : Nat → List (Option Byte)

namespace Fifo

def create (elementSize capacity maxThreshold numChannels : Nat) : Fifo :=
  ⟨elementSize, capacity, maxThreshold, numChannels, 0, fun _ => []⟩

def Accepts (F : Fifo) : Act → Prop
  | .put thresh _ _ _ => thresh ≤ F.capacity - F.count ∧ thresh ≤ F.maxThreshold
  | .take thresh _ _ => thresh ≤ F.count ∧ thresh ≤ F.maxThreshold

instance (F : Fifo) : ∀ a, Decidable (F.Accepts a)
  | .put _ _ _ _ | .take _ _ _ => inferInstanceAs (Decidable (_ ∧ _))

def append (F : Fifo) (n : Nat) (g : Nat → Nat → Option Byte) : Fifo :=
  { F with
    count := F.count + n
    channels := fun c => F.channels c ++ (List.range (n * F.elementSize)).map (g c) }

def drop (F : Fifo) (n : Nat) : Fifo :=
  { F with count := F.count - n, channels := fun c => (F.channels c).drop (n * F.elementSize) }

def accepted (F : Fifo) : Act → Fifo
  | .put _ chans w count => F.append count fun c i => if c ∈ chans then w c i else none
  | .take _ _ count => F.drop count

def next (F : Fifo) (a : Act) : Fifo := if F.Accepts a then F.accepted a else F

/-- What the client gets of an act. -/
def Answers (F : Fifo) (a : Act) (out : Out) : Prop :=
  if F.Accepts a then
    match a with
    | .put _ _ _ _ => out = .done
    | .take thresh chans _ =>
      ∃ reads, out = .bytes reads ∧
        List.Forall₂ (fun bytes c => Shows bytes ((F.channels c).take (thresh * F.elementSize))) reads chans
  else out = .refused

/-- The acts are answered one after the other. -/
def Follows (F : Fifo) : List Act → List Out → Prop
  | a :: acts, out :: outs => F.Answers a out ∧ Follows (F.next a) acts outs
  | [], [] => True
  | _, _ => False

/-- The client asks for channels that there are, and enqueues and dequeues within its thresholds. -/
def Allowed (F : Fifo) : Act → Prop
  | .put thresh chans _ count | .take thresh chans count =>
    chans ≠ [] ∧ (∀ c ∈ chans, c < F.numChannels) ∧ count ≤ thresh

instance (F : Fifo) : ∀ a, Decidable (F.Allowed a)
  | .put _ _ _ _ | .take _ _ _ => inferInstanceAs (Decidable (_ ∧ _ ∧ _))

def Orderly (F : Fifo) : List Act → Prop
  | [] => True
  | a :: acts => F.Allowed a ∧ Orderly (F.next a) acts

instance decidableOrderly : ∀ (acts : List Act) (F : Fifo), Decidable (F.Orderly acts)
  | [], _ => isTrue trivial
  | a :: acts, F =>
    have := decidableOrderly acts (F.next a)
    inferInstanceAs (Decidable (F.Allowed a ∧ (F.next a).Orderly acts))

end Fifo

end ProcessNetwork.MirroredQueue
