import ProcessNetwork.QueueOperations

/-!
# The blocking loops of `CPN::QueueBase`

`GetRawDequeuePtr` and `GetRawEnqueuePtr` are `while (true)` loops under the queue lock.  One pass of each loop is a
function of the queue (`dequeuePass`, `enqueuePass`), and the pass says how it ends: the call returns or throws, the
loop goes round again with the lock still held, or the thread waits and the lock is released.

The loops are written once for every queue class, over the methods that `RemoteQueue` overrides: `UnlockedCount`,
`UnlockedGrow` and `Signal`.  `UnlockedGrow` of a remote queue can wait for the action thread before it grows, so the
result of a growth says whether it is done.
-/

namespace ProcessNetwork

/-- The kernel as a queue uses it. -/
structure KernelBase where
  growQueueMaxThreshold : Bool
  useD4R : Bool
  calculateGrowSize : Nat → Nat → Nat
  malloc : Malloc

/-- A kernel that grows queues, with the `CalculateGrowSize` of `Context`, on zeroed memory. -/
def KernelBase.standard (useD4R : Bool) : KernelBase where
  growQueueMaxThreshold := true
  useD4R := useD4R
  calculateGrowSize currentsize request := u32 (currentsize + request)
  malloc _ _ := 0

/-- `UnlockedGrow` is done, or waits on `actionCond` with the lock released. -/
inductive GrowResult (σ : Type)
  | done (q : σ)
  | waits (q : σ)

/-- The methods of a queue class that the loops call. -/
class Queue (σ : Type) where
  threshold : σ → ThresholdQueue
  withBase : σ → QueueBase → σ
  unlockedCount : σ → Nat
  unlockedGrow : KernelBase → σ → Nat → Nat → Except Fault (GrowResult σ)
  signal : σ → σ

/-- How a pass of a loop ends. -/
inductive Pass (σ : Type)
  | returns (ptr : Option Ptr) (q : σ)
  | broken (q : σ)
  | again (q : σ)
  | growing (q : σ) (queueLen maxThresh : Nat)
  | waits (q : σ)
  | fails (fault : Fault)

namespace Pass

variable {σ τ : Type}

def map (f : σ → τ) : Pass σ → Pass τ
  | returns ptr q => returns ptr (f q)
  | broken q => broken (f q)
  | again q => again (f q)
  | growing q queueLen maxThresh => growing (f q) queueLen maxThresh
  | waits q => waits (f q)
  | fails fault => fails fault

/-- The result of the call, when the pass returns. -/
def returned : Pass σ → Option (Option Ptr)
  | returns ptr _ => some ptr
  | _ => none

theorem exists_of_returned {p : Pass σ} {ptr : Option Ptr} (h : p.returned = some ptr) : ∃ q, p = returns ptr q := by
  cases p <;> cases h
  exact ⟨_, rfl⟩

end Pass

namespace Queue

variable {σ : Type} [Queue σ] (k : KernelBase) (q : σ)

def base : QueueBase := (threshold q).toQueueBase

def unlockedMaxThreshold : Nat := (threshold q).queue.maxThreshold

def unlockedFreespace : Nat := (threshold q).queue.freespace

def readBlocked : Bool :=
  unlockedCount q < (base q).readrequest && !((base q).readshutdown || (base q).writeshutdown)

def writeBlocked : Bool :=
  unlockedFreespace q < (base q).writerequest && !((base q).readshutdown || (base q).writeshutdown)

/-- `UnlockedGrow(queueLen, maxThresh); Signal();` as it stands in the loops. -/
def growPass (queueLen maxThresh : Nat) : Pass σ :=
  match unlockedGrow k q queueLen maxThresh with
  | .error fault => .fails fault
  | .ok (.done q') => .again (signal q')
  | .ok (.waits q') => .growing q' queueLen maxThresh

/-- One pass of the loop of `GetRawDequeuePtr`. -/
def dequeuePass (thresh chan : Nat) : Pass σ :=
  match (threshold q).internalGetRawDequeuePtr thresh chan with
  | .error fault => .fails fault
  | .ok (some ptr) => .returns (some ptr) (withBase q { base q with indequeue := true })
  | .ok none =>
    if (base q).writeshutdown then .returns none q
    else if (base q).readshutdown then .broken q
    else if thresh > unlockedMaxThreshold q && k.growQueueMaxThreshold then
      growPass k q (u32 (2 * thresh)) thresh
    else if writeBlocked q && k.growQueueMaxThreshold then
      growPass k q (u32 ((base q).writerequest + thresh)) thresh
    else .waits (withBase q { base q with readrequest := thresh })

/-- One pass of the loop of `GetRawEnqueuePtr`; its local variable `grown` is part of the state of the loop. -/
def enqueuePass (thresh chan : Nat) (grown : Bool) : Pass (σ × Bool) :=
  match (threshold q).internalGetRawEnqueuePtr thresh chan with
  | .error fault => .fails fault
  | .ok (some ptr) => .returns (some ptr) (withBase q { base q with inenqueue := true }, grown)
  | .ok none =>
    if (base q).readshutdown || (base q).writeshutdown then .broken (q, grown)
    else if thresh > unlockedMaxThreshold q && k.growQueueMaxThreshold then
      (growPass k q (u32 (2 * thresh)) thresh).map (·, grown)
    else if !grown && readBlocked q && k.growQueueMaxThreshold then
      (growPass k q (u32 ((base q).readrequest + thresh)) thresh).map (·, true)
    else .waits (withBase q { base q with writerequest := thresh }, grown)

/-- `NotifyData` (with `cond.Broadcast`, which `Signal` of a remote queue does not replace). -/
def notifyData : σ :=
  if unlockedCount q ≥ (base q).readrequest then withBase q { base q with cond := fun _ => false } else q

def notifyFreespace : σ :=
  if unlockedFreespace q ≥ (base q).writerequest then withBase q { base q with cond := fun _ => false } else q

def unlockedShutdownReader : σ := signal (withBase q { base q with readshutdown := true })

def unlockedShutdownWriter : σ := signal (withBase q { base q with writeshutdown := true })

end Queue

/-- The methods of a local queue. -/
instance : Queue ThresholdQueue where
  threshold q := q
  withBase q b := { q with toQueueBase := b }
  unlockedCount q := q.queue.count
  unlockedGrow k q queueLen maxThresh := (q.unlockedGrow k.malloc queueLen maxThresh).map .done
  signal q := { q with cond := fun _ => false }

end ProcessNetwork
