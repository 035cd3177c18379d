import ProcessNetwork.Lib.Machine
import ProcessNetwork.QueueBase

/-!
# A local queue and its threads

A `ThresholdQueue` with one reader thread, one writer thread and any other threads, as a machine.  A step is a section
of code under the queue lock, and the passes of a blocking loop are steps of their own during which the thread keeps
the lock.  A thread that waits has released the lock; it sleeps while `cond` has it, a broadcast removes it, and it
then checks its condition again.

The nodes' use of the queue is part of the state: the pointers a node holds, with the bytes it has written through
them, and the history of the queue, that is the bytes enqueued so far on each channel and the number of bytes dequeued.
With `useD4R` set, what the deadlock detection can do to a waiting thread is a choice of the environment: `detect` is
`QueueBase::Detect` on behalf of the waiting writer, `deadlock` is the `DeadlockException` of the waiting reader.
-/

namespace ProcessNetwork

/-- Where the reader is: outside, in the loop of `GetRawDequeuePtr` with the lock, or in `WaitForData`. -/
inductive ReaderPc
  | idle
  | loop (thresh chan : Nat)
  | waiting (thresh chan : Nat)
  deriving DecidableEq, Repr

inductive WriterPc
  | idle
  | loop (thresh chan : Nat) (grown : Bool)
  | waiting (thresh chan : Nat) (grown : Bool)
  deriving DecidableEq, Repr

/-- The threshold of the call in which the writer is. -/
def WriterPc.thresh : WriterPc → Nat
  | .idle => 0
  | .loop thresh _ _ => thresh
  | .waiting thresh _ _ => thresh

structure LocalState where
  q : ThresholdQueue
  reader : ReaderPc
  writer : WriterPc
  readerPtrs : List HeldPtr
  writerPtrs : List HeldPtr
  /-- what the writer has written through its pointers since the enqueue began, by channel and offset -/
  written : Nat → Nat → Option Byte
  enqueued : Nat → List Byte
  dequeued : Nat
  failed : Option Fault

inductive LocalAct
  | getRawDequeuePtr (thresh chan : Nat)
  | dequeuePass
  | readerWakes
  | dequeue (count : Nat)
  | getRawEnqueuePtr (thresh chan : Nat)
  | enqueuePass
  | writerWakes
  | write (p : HeldPtr) (off : Nat) (b : Byte)
  | enqueue (count : Nat)
  | grow (queueLen maxThresh : Nat)
  | shutdownReader
  | shutdownWriter
  | detect
  | deadlock
  | spuriousWakeup (t : Thread)
  deriving DecidableEq, Repr

namespace LocalState

/-- No thread holds the lock. -/
def lockFree (s : LocalState) : Bool :=
  match s.reader, s.writer with
  | .loop .., _ => false
  | _, .loop .. => false
  | _, _ => true

def setCond (q : ThresholdQueue) (t : Thread) (b : Bool) : ThresholdQueue :=
  { q with cond := Function.update q.cond t b }

/-- The bytes that `Enqueue(count)` puts into channel `c`: what the writer has written, and what was there before
where it has written nothing. -/
def newBytes (s : LocalState) (count c : Nat) : List Byte :=
  (s.q.enqueueRegion c count).mapIdx fun i b => (s.written c i).getD b

/-! ### The reader -/

def getRawDequeuePtr (s : LocalState) (thresh chan : Nat) : LocalState :=
  if s.q.indequeue then
    -- a larger threshold than that of the outstanding dequeue fails the assertion and throws
    if s.q.dequeuethresh ≥ thresh then { s with reader := .loop thresh chan } else s
  else
    { s with q := { s.q with dequeuethresh := thresh }, reader := .loop thresh chan }

/-- A pass of the loop of `GetRawDequeuePtr`, with the start of `WaitForData`. -/
def dequeuePass (k : KernelBase) (s : LocalState) (thresh chan : Nat) : LocalState :=
  match Queue.dequeuePass k s.q thresh chan with
  | .returns none q => { s with q := q, reader := .idle }
  | .returns (some ptr) q => { s with q := q, reader := .idle, readerPtrs := ⟨chan, thresh, ptr⟩ :: s.readerPtrs }
  | .broken q => { s with q := q, reader := .idle }
  | .again q => { s with q := q }
  | .growing q _ _ => { s with q := q }
  | .waits q =>
    if Queue.readBlocked q then { s with q := setCond q .reader (!k.useD4R), reader := .waiting thresh chan }
    else { s with q := { q with readrequest := 0 } }
  | .fails fault => { s with reader := .idle, failed := some fault }

/-- The check of the loop in `WaitForData` after a wakeup. -/
def readerWakes (s : LocalState) (thresh chan : Nat) : LocalState :=
  if Queue.readBlocked s.q then { s with q := setCond s.q .reader true }
  else { s with q := { s.q with readrequest := 0 }, reader := .loop thresh chan }

def dequeue (s : LocalState) (count : Nat) : LocalState :=
  let q := { s.q with dequeuethresh := 0, indequeue := false }
  if q.readshutdown then { s with q := q, readerPtrs := [] }
  else
    { s with
      q := Queue.notifyFreespace (q.internalDequeue count)
      readerPtrs := []
      dequeued := s.dequeued + count }

/-! ### The writer -/

def getRawEnqueuePtr (s : LocalState) (thresh chan : Nat) : LocalState :=
  if s.q.inenqueue then
    if s.q.enqueuethresh ≥ thresh then { s with writer := .loop thresh chan false } else s
  else
    { s with q := { s.q with enqueuethresh := thresh }, writer := .loop thresh chan false }

def enqueuePass (k : KernelBase) (s : LocalState) (thresh chan : Nat) (grown : Bool) : LocalState :=
  match Queue.enqueuePass k s.q thresh chan grown with
  | .returns none (q, _) => { s with q := q, writer := .idle }
  | .returns (some ptr) (q, _) => { s with q := q, writer := .idle, writerPtrs := ⟨chan, thresh, ptr⟩ :: s.writerPtrs }
  | .broken (q, _) => { s with q := q, writer := .idle }
  | .again (q, grown) => { s with q := q, writer := .loop thresh chan grown }
  | .growing (q, grown) _ _ => { s with q := q, writer := .loop thresh chan grown }
  | .waits (q, grown) =>
    if Queue.writeBlocked q then
      { s with q := setCond q .writer (!k.useD4R), writer := .waiting thresh chan grown }
    else { s with q := { q with writerequest := 0 }, writer := .loop thresh chan grown }
  | .fails fault => { s with writer := .idle, failed := some fault }

def writerWakes (s : LocalState) (thresh chan : Nat) (grown : Bool) : LocalState :=
  if Queue.writeBlocked s.q then { s with q := setCond s.q .writer true }
  else { s with q := { s.q with writerequest := 0 }, writer := .loop thresh chan grown }

def write (s : LocalState) (p : HeldPtr) (off : Nat) (b : Byte) : LocalState :=
  match s.q.store p.ptr off b with
  | none => { s with failed := some .nullPointer }
  | some q =>
    { s with q := q, written := Function.update s.written p.chan (Function.update (s.written p.chan) off (some b)) }

def enqueue (s : LocalState) (count : Nat) : LocalState :=
  let q := { s.q with enqueuethresh := 0, inenqueue := false }
  let s' := { s with q := q, writerPtrs := [], written := fun _ _ => none }
  if q.writeshutdown then s'
  else
    match q.internalEnqueue count with
    | .error fault => { s' with failed := some fault }
    | .ok q => { s' with q := Queue.notifyData q, enqueued := fun c => s.enqueued c ++ s.newBytes count c }

/-! ### The other threads -/

def grow (k : KernelBase) (s : LocalState) (queueLen maxThresh : Nat) : LocalState :=
  match s.q.unlockedGrow k.malloc queueLen maxThresh with
  | .ok q => { s with q := q }
  -- with both an enqueue and a dequeue outstanding the call throws, as its documentation says
  | .error fault => if s.q.inenqueue && s.q.indequeue then s else { s with failed := some fault }

def detect (k : KernelBase) (s : LocalState) : LocalState :=
  match s.q.unlockedGrow k.malloc (k.calculateGrowSize s.q.queue.count s.q.writerequest) s.q.writerequest with
  | .ok q => { s with q := setCond q .writer false }
  | .error fault => { s with failed := some fault }

end LocalState

open LocalState in
def localNext (k : KernelBase) (s : LocalState) : LocalAct → Option LocalState
  | .getRawDequeuePtr thresh chan =>
    if s.lockFree ∧ s.reader = .idle ∧ chan < s.q.queue.numChannels then some (s.getRawDequeuePtr thresh chan) else none
  | .dequeuePass =>
    match s.reader with
    | .loop thresh chan => some (s.dequeuePass k thresh chan)
    | _ => none
  | .readerWakes =>
    match s.reader with
    | .waiting thresh chan => if s.lockFree ∧ s.q.cond .reader = false then some (s.readerWakes thresh chan) else none
    | _ => none
  | .dequeue count =>
    if s.lockFree ∧ s.reader = .idle ∧ count ≤ (if s.q.indequeue then s.q.dequeuethresh else 0) then
      some (s.dequeue count)
    else none
  | .getRawEnqueuePtr thresh chan =>
    if s.lockFree ∧ s.writer = .idle ∧ chan < s.q.queue.numChannels then some (s.getRawEnqueuePtr thresh chan) else none
  | .enqueuePass =>
    match s.writer with
    | .loop thresh chan grown => some (s.enqueuePass k thresh chan grown)
    | _ => none
  | .writerWakes =>
    match s.writer with
    | .waiting thresh chan grown =>
      if s.lockFree ∧ s.q.cond .writer = false then some (s.writerWakes thresh chan grown) else none
    | _ => none
  | .write p off b => if s.writer = .idle ∧ p ∈ s.writerPtrs ∧ off < p.thresh then some (s.write p off b) else none
  | .enqueue count =>
    if s.lockFree ∧ s.writer = .idle ∧ count ≤ (if s.q.inenqueue then s.q.enqueuethresh else 0) then
      some (s.enqueue count)
    else none
  | .grow queueLen maxThresh => if s.lockFree then some (s.grow k queueLen maxThresh) else none
  | .shutdownReader => if s.lockFree then some { s with q := Queue.unlockedShutdownReader s.q } else none
  | .shutdownWriter => if s.lockFree then some { s with q := Queue.unlockedShutdownWriter s.q } else none
  | .detect =>
    match s.writer with
    | .waiting .. => if s.lockFree ∧ k.useD4R ∧ Queue.writeBlocked s.q then some (s.detect k) else none
    | _ => none
  | .deadlock =>
    match s.reader with
    | .waiting .. =>
      if s.lockFree ∧ k.useD4R then some { s with q := Queue.signal s.q, reader := .idle } else none
    | _ => none
  | .spuriousWakeup t => some { s with q := setCond s.q t false }

/-- A queue as the constructor leaves it. -/
def localStart (k : KernelBase) (length maxThreshold numChannels : Nat) : LocalState where
  q := .create k.malloc length maxThreshold numChannels
  reader := .idle
  writer := .idle
  readerPtrs := []
  writerPtrs := []
  written := fun _ _ => none
  enqueued := fun _ => []
  dequeued := 0
  failed := none

/-- A local queue of any length, threshold and number of channels. -/
def localQueue (k : KernelBase) : Machine LocalState LocalAct where
  init s := ∃ length maxThreshold numChannels, s = localStart k length maxThreshold numChannels
  next := localNext k

end ProcessNetwork
