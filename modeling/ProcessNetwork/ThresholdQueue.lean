import ProcessNetwork.RingGrow

/-!
# `CPN::ThresholdQueue`

The queue of `CPN/ThresholdQueue.cc` over the fields of `CPN::QueueBase`.  When the queue grows while an enqueue or a
dequeue is outstanding, the node still uses a pointer into the old buffer, so the old ring is kept in `oldqueue`
until the operation ends, and `enqueueUseOld` or `dequeueUseOld` tells which operation uses it.

A pointer names the block it points into.  Loads and stores through a pointer go to the block of that name, and fail
when the block has been freed.  What lies behind the end of a block cannot be loaded as the bytes of a region.
-/

namespace ProcessNetwork

/-- The threads that can sleep on the condition variable of a queue. -/
inductive Thread
  | reader
  | writer
  | action
  deriving DecidableEq, Repr

/-- The fields of `CPN::QueueBase`.  `cond t` says that the thread `t` sleeps in `cond.Wait`. -/
structure QueueBase where
  readshutdown : Bool
  writeshutdown : Bool
  readrequest : Nat
  writerequest : Nat
  enqueuethresh : Nat
  dequeuethresh : Nat
  indequeue : Bool
  inenqueue : Bool
  cond : Thread → Bool

/-- A pointer: a block and an offset into it. -/
structure Ptr where
  buf : Nat
  addr : Nat
  deriving DecidableEq, Repr

/-- A pointer a node got for `thresh` bytes of channel `chan`. -/
structure HeldPtr where
  chan : Nat
  thresh : Nat
  ptr : Ptr
  deriving DecidableEq, Repr

structure ThresholdQueue extends QueueBase where
  queue : ThresholdQueueBase
  oldqueue : Option ThresholdQueueBase
  enqueueUseOld : Bool
  dequeueUseOld : Bool

namespace ThresholdQueue

/-- The constructor, for a queue of the given length. -/
def create (malloc : Malloc) (length maxThreshold numChannels : Nat) : ThresholdQueue where
  readshutdown := false
  writeshutdown := false
  readrequest := 0
  writerequest := 0
  enqueuethresh := 0
  dequeuethresh := 0
  indequeue := false
  inenqueue := false
  cond := fun _ => false
  queue := .allocateBuf malloc length maxThreshold numChannels 0
  oldqueue := none
  enqueueUseOld := false
  dequeueUseOld := false

def internalGetRawEnqueuePtr (q : ThresholdQueue) (thresh chan : Nat) : Except Fault (Option Ptr) :=
  if q.enqueueUseOld then do
    ensure q.inenqueue "inenqueue"
    match q.oldqueue with
    | none => .error .nullPointer
    | some old =>
      match old.getRawEnqueuePtr thresh chan with
      | none => .error (.assert "ret")
      | some a => .ok (some ⟨old.buf, a⟩)
  else
    .ok ((q.queue.getRawEnqueuePtr thresh chan).map (Ptr.mk q.queue.buf))

def internalEnqueue (q : ThresholdQueue) (count : Nat) : Except Fault ThresholdQueue :=
  if q.enqueueUseOld then
    match q.oldqueue with
    | none => .error .nullPointer
    | some old => do
      let old := old.dequeue old.count
      let old := old.enqueue count
      let (_, queue) ← ThresholdQueueBase.drainInto old.count old q.queue
      .ok { q with queue := queue, enqueueUseOld := false, oldqueue := none }
  else
    .ok { q with queue := q.queue.enqueue count }

def internalGetRawDequeuePtr (q : ThresholdQueue) (thresh chan : Nat) : Except Fault (Option Ptr) :=
  if q.dequeueUseOld then do
    ensure q.indequeue "indequeue"
    match q.oldqueue with
    | none => .error .nullPointer
    | some old =>
      match old.getRawDequeuePtr thresh chan with
      | none => .error (.assert "ret")
      | some a => .ok (some ⟨old.buf, a⟩)
  else
    .ok ((q.queue.getRawDequeuePtr thresh chan).map (Ptr.mk q.queue.buf))

def internalDequeue (q : ThresholdQueue) (count : Nat) : ThresholdQueue :=
  if q.dequeueUseOld then
    { q with dequeueUseOld := false, oldqueue := none, queue := q.queue.dequeue count }
  else
    { q with queue := q.queue.dequeue count }

def unlockedGrow (malloc : Malloc) (q : ThresholdQueue) (queueLen maxThresh : Nat) : Except Fault ThresholdQueue :=
  if queueLen ≤ q.queue.queueLength ∧ maxThresh ≤ q.queue.maxThreshold then .ok q
  else do
    ensure (!(q.inenqueue && q.indequeue)) "Unhandled grow case of having an outstanding dequeue and enqueue"
    if q.oldqueue.isSome then
      -- if the old queue is still around we have to still be in the same state
      ensure (q.enqueueUseOld == q.inenqueue) "enqueueUseOld == inenqueue"
      ensure (q.dequeueUseOld == q.indequeue) "dequeueUseOld == indequeue"
      let (queue, _) ← q.queue.grow malloc queueLen maxThresh false
      .ok { q with queue := queue }
    else if !q.inenqueue && !q.indequeue then
      let (queue, _) ← q.queue.grow malloc queueLen maxThresh false
      .ok { q with queue := queue }
    else
      let (queue, old) ← q.queue.grow malloc queueLen maxThresh true
      -- the source resets `enqueueUseOld` twice when there is no duplicate, and `dequeueUseOld` not at all
      .ok { q with
            queue := queue
            oldqueue := old
            enqueueUseOld := if old.isNone then false else q.inenqueue
            dequeueUseOld := q.indequeue }

/-! ### Memory -/

/-- The ring in the block named `b`, unless it has been freed. -/
def ringOf (q : ThresholdQueue) (b : Nat) : Option ThresholdQueueBase :=
  if q.queue.buf = b then some q.queue else q.oldqueue.filter fun old => old.buf = b

/-- The `n` cells from a pointer on are in its block. -/
def inBlock (q : ThresholdQueue) (p : Ptr) (n : Nat) : Bool := (q.ringOf p.buf).any fun ring => p.addr + n ≤ ring.size

/-- The `n` bytes a pointer points to, if they are all in its block. -/
def load (q : ThresholdQueue) (p : Ptr) (n : Nat) : Option (List Byte) :=
  if q.inBlock p n then (q.ringOf p.buf).map fun ring => slice ring.base p.addr n else none

/-- The byte at an offset from a pointer. -/
def peek (q : ThresholdQueue) (p : Ptr) (off : Nat) : Option Byte :=
  (q.ringOf p.buf).map fun ring => ring.base (p.addr + off)

/-- Neither the ring nor the one that it has replaced is larger than its block. -/
def Fits (q : ThresholdQueue) : Prop := q.queue.Fits ∧ ∀ old ∈ q.oldqueue, old.Fits

instance (q : ThresholdQueue) : Decidable q.Fits := inferInstanceAs (Decidable (_ ∧ _))

/-- Writing a byte at an offset from a pointer. -/
def store (q : ThresholdQueue) (p : Ptr) (off : Nat) (b : Byte) : Option ThresholdQueue :=
  if q.queue.buf = p.buf then
    some { q with queue := { q.queue with base := Function.update q.queue.base (p.addr + off) b } }
  else
    (q.oldqueue.filter fun old => old.buf = p.buf).map fun old =>
      { q with oldqueue := some { old with base := Function.update old.base (p.addr + off) b } }

/-! ### The operations leave the fields of `QueueBase` alone -/

variable {q q' : ThresholdQueue}

theorem toQueueBase_internalEnqueue {n : Nat} (h : q.internalEnqueue n = .ok q') : q'.toQueueBase = q.toQueueBase := by
  unfold internalEnqueue at h
  split_ifs at h
  · cases ho : q.oldqueue with
    | none =>
      rw [ho] at h
      cases h
    | some old =>
      rw [ho] at h
      obtain ⟨r, -, h⟩ := bind_eq_ok h
      cases h
      rfl
  · cases h
    rfl

theorem toQueueBase_internalDequeue (q : ThresholdQueue) (n : Nat) :
    (q.internalDequeue n).toQueueBase = q.toQueueBase := by
  unfold internalDequeue
  split_ifs <;> rfl

theorem toQueueBase_unlockedGrow {malloc : Malloc} {queueLen maxThresh : Nat}
    (h : q.unlockedGrow malloc queueLen maxThresh = .ok q') : q'.toQueueBase = q.toQueueBase := by
  unfold unlockedGrow at h
  split_ifs at h with hno ho hidle
  · cases h
    rfl
  · obtain ⟨_, -, h⟩ := bind_eq_ok h
    obtain ⟨_, -, h⟩ := bind_eq_ok h
    obtain ⟨_, -, h⟩ := bind_eq_ok h
    obtain ⟨r, -, h⟩ := bind_eq_ok h
    cases h
    rfl
  all_goals
    obtain ⟨_, -, h⟩ := bind_eq_ok h
    obtain ⟨r, -, h⟩ := bind_eq_ok h
    cases h
    rfl

theorem toQueueBase_store {p : Ptr} {off : Nat} {b : Byte} (h : q.store p off b = some q') :
    q'.toQueueBase = q.toQueueBase := by
  unfold store at h
  split_ifs at h
  · cases h
    rfl
  · obtain ⟨old, -, h⟩ := Option.map_eq_some_iff.1 h
    cases h
    rfl

end ThresholdQueue

end ProcessNetwork
