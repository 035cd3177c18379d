import ProcessNetwork.Lib.Memory
import ProcessNetwork.Lib.Unsigned

/-!
# The ring buffer `ThresholdQueueBase`

The malloc-backed queue of `ThresholdQueueBase.cc` with `elementSize` 1, and `TQImpl::Grow` of `CPN/ThresholdQueue.cc`,
which moves its contents to a larger buffer.  A channel occupies `channelStride` cells: the ring of `queueLength`
cells, then the mirror of its first `maxThreshold - 1` cells.  `head` and `tail` run modulo `2 * queueLength`, so that
a full ring and an empty one differ.

The subtraction loops of the source (`while (idx >= queueLength) idx -= queueLength`) are remainders.  The record
carries what every operation keeps: `1 ≤ maxThreshold ≤ queueLength` and the ranges of `head` and `tail`.  `buf` tells
the blocks returned by `malloc` apart, so that a pointer into a replaced buffer is a different pointer.

`base` is the memory from the start of the block on, and the block itself is the first `size` cells of it.  The size is an
`unsigned long` product, which may wrap; the code computes its addresses as if it had not, and what it then puts behind the
block is kept in `base`, but is not memory of the queue.
-/

namespace ProcessNetwork

abbrev Byte := UInt8

/-- What `malloc` returns: the contents of a fresh block of a given size, about which nothing is known. -/
abbrev Malloc := Nat → Nat → Byte

/-- How a call can go wrong: a failed `ASSERT`, with its text; a null pointer followed; a loop that does not end. -/
inductive Fault
  | assert (text : String)
  | nullPointer
  | endless
  deriving DecidableEq, Repr

/-- `ASSERT(b)`. -/
def ensure (b : Bool) (text : String) : Except Fault Unit :=
  if b then .ok () else .error (.assert text)

theorem bind_eq_ok {ε α β : Type} {x : Except ε α} {f : α → Except ε β} {r : β} (h : (x >>= f) = .ok r) :
    ∃ a, x = .ok a ∧ f a = .ok r := by
  cases x with
  | error e => cases h
  | ok a => exact ⟨a, rfl, h⟩

structure ThresholdQueueBase where
  queueLength : Nat
  maxThreshold : Nat
  numChannels : Nat
  head : Nat
  tail : Nat
  elementsEnqueued : Nat
  elementsDequeued : Nat
  buf : Nat
  base : Nat → Byte
  one_le_maxThreshold : 1 ≤ maxThreshold
  maxThreshold_le : maxThreshold ≤ queueLength
  head_lt : head < 2 * queueLength
  tail_lt : tail < 2 * queueLength

namespace ThresholdQueueBase

theorem queueLength_pos (q : ThresholdQueueBase) : 0 < q.queueLength := by
  have := q.one_le_maxThreshold
  have := q.maxThreshold_le
  omega

def channelStride (q : ThresholdQueueBase) : Nat := q.queueLength + q.maxThreshold - 1

/-- The number of bytes that `AllocateBuf` has asked `malloc` for. -/
def size (q : ThresholdQueueBase) : Nat := u64 (q.channelStride * q.numChannels)

/-- The size of the block has not wrapped. -/
def Fits (q : ThresholdQueueBase) : Prop := q.channelStride * q.numChannels < 2 ^ 64

instance (q : ThresholdQueueBase) : Decidable q.Fits := inferInstanceAs (Decidable (_ < _))

/-- `AllocateBuf` without a `MirrorBufferSet`, which also resets the indices. -/
def allocateBuf (malloc : Malloc) (queueLen maxThresh numChans buf : Nat) : ThresholdQueueBase :=
  let maxThresh := max maxThresh 1
  let queueLen := max queueLen maxThresh
  { queueLength := queueLen
    maxThreshold := maxThresh
    numChannels := numChans
    head := 0
    tail := 0
    elementsEnqueued := 0
    elementsDequeued := 0
    buf := buf
    base := malloc (u64 ((queueLen + maxThresh - 1) * numChans))
    one_le_maxThreshold := Nat.le_max_right _ _
    maxThreshold_le := Nat.le_max_right _ _
    head_lt := by have := Nat.le_max_right maxThresh 1; omega
    tail_lt := by have := Nat.le_max_right maxThresh 1; omega }

/-- The number of elements in the queue. -/
def count (q : ThresholdQueueBase) : Nat :=
  let count := (2 * q.queueLength - q.head + q.tail) % q.queueLength
  if count ≠ 0 then count else if q.head = q.tail then 0 else q.queueLength

def freespace (q : ThresholdQueueBase) : Nat := q.queueLength - q.count

/-- The offset of a region for writing `thresh` elements. -/
def getRawEnqueuePtr (q : ThresholdQueueBase) (thresh chan : Nat) : Option Nat :=
  if thresh > q.freespace ∨ thresh > q.maxThreshold then none
  else some (chan * q.channelStride + q.tail % q.queueLength)

/-- The offset of the next `thresh` elements. -/
def getRawDequeuePtr (q : ThresholdQueueBase) (thresh chan : Nat) : Option Nat :=
  if thresh > q.count ∨ thresh > q.maxThreshold then none
  else some (chan * q.channelStride + q.head % q.queueLength)

/-- The two copies `Enqueue` makes on one channel: the part of the new elements that has a mirror goes up to it, and
the part that was written into the mirror goes down to the ring. -/
def mirrorChannel (stride queueLength idx countUp countDn chan : Nat) (m : Nat → Byte) : Nat → Byte :=
  let up := memcpy m (chan * stride + (idx + queueLength)) m (chan * stride + idx) countUp
  memcpy up (chan * stride) up (chan * stride + queueLength) countDn

def enqueue (q : ThresholdQueueBase) (count : Nat) : ThresholdQueueBase :=
  let idx := q.tail % q.queueLength
  let countUp :=
    if idx + count < q.maxThreshold - 1 then count
    else if idx < q.maxThreshold - 1 then q.maxThreshold - 1 - idx
    else 0
  let countDn := if idx + count > q.queueLength then idx + count - q.queueLength else 0
  { q with
    base :=
      if countUp ≠ 0 ∨ countDn ≠ 0 then
        forChannels q.numChannels (mirrorChannel q.channelStride q.queueLength idx countUp countDn) q.base
      else q.base
    tail := (q.tail + count) % (2 * q.queueLength)
    elementsEnqueued := q.elementsEnqueued + count
    tail_lt := Nat.mod_lt _ (by have := q.queueLength_pos; omega) }

def dequeue (q : ThresholdQueueBase) (count : Nat) : ThresholdQueueBase :=
  { q with
    head := (q.head + count) % (2 * q.queueLength)
    elementsDequeued := q.elementsDequeued + count
    head_lt := Nat.mod_lt _ (by have := q.queueLength_pos; omega) }

/-- The inner loop of the copying code: `count` elements of every channel from `src` to the enqueue region of
`dst`. -/
def copyChannels (src dst : ThresholdQueueBase) (count : Nat) : Nat → Except Fault ThresholdQueueBase
  | 0 => .ok dst
  | chan + 1 => do
    let dst ← copyChannels src dst count chan
    match src.getRawDequeuePtr count chan, dst.getRawEnqueuePtr count chan with
    | some s, some d => .ok { dst with base := memcpy dst.base d src.base s count }
    | _, _ => .error (.assert "src && dst")

/-- The loop that moves everything in `src` to `dst` in pieces of at most `src.maxThreshold` elements
(`TQImpl::Grow` and `ThresholdQueue::InternalEnqueue` have it).  The first argument bounds the number of passes. -/
def drainInto : Nat → ThresholdQueueBase → ThresholdQueueBase → Except Fault (ThresholdQueueBase × ThresholdQueueBase)
  | 0, src, dst => if src.count = 0 then .ok (src, dst) else .error .endless
  | passes + 1, src, dst =>
    if src.count = 0 then .ok (src, dst)
    else do
      let count := if src.count > src.maxThreshold then src.maxThreshold else src.count
      let dst ← copyChannels src dst count dst.numChannels
      drainInto passes (src.dequeue count) (dst.enqueue count)

/-- `TQImpl::Grow`: the queue after the call and, when `copy` is set, the queue as it was before, on its old
buffer. -/
def grow (malloc : Malloc) (q : ThresholdQueueBase) (queueLen maxThresh : Nat) (copy : Bool) :
    Except Fault (ThresholdQueueBase × Option ThresholdQueueBase) :=
  if queueLen ≤ q.queueLength ∧ maxThresh ≤ q.maxThreshold then .ok (q, none)
  else do
    let maxThresh := if maxThresh ≤ q.maxThreshold then q.maxThreshold else maxThresh
    let queueLen := if queueLen ≤ q.queueLength then q.queueLength else queueLen
    let fresh := allocateBuf malloc queueLen maxThresh q.numChannels (q.buf + 1)
    let (old, new) ← drainInto q.count q { fresh with elementsDequeued := q.elementsDequeued }
    let new := { new with elementsEnqueued := old.elementsEnqueued }
    -- dequeueing has changed `head` and `elementsDequeued` of the old queue, and `head` is put back
    let old := { q with elementsDequeued := old.elementsDequeued }
    .ok (new, if copy then some old else none)

end ThresholdQueueBase

end ProcessNetwork
