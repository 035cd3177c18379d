import ProcessNetwork.Lib.Condition
import ProcessNetwork.Lib.Machine

/-!
# `Sync::ThreadPool`

The thread pool of `Synchronize/ThreadPool.cc` as a machine.  A step is a section of code under the lock of the pool, up
to the next `Wait`, unlock or return, or the run of a task outside the lock.  Threads outside the pool call `Execute` and
`Wait`; one thread calls `Shutdown`.

`Signal` wakes one thread that sleeps on the condition variable, and the step says which one.  `TimedWait` adds the
timeout to the time of day without a carry, so `pthread_cond_timedwait` may refuse the sum; nothing catches what
`TrapError` throws then, and the program ends.
-/

namespace ProcessNetwork

/-- A `Runnable`; objects are told apart by a number. -/
abbrev Runnable := Nat

/-- Where a worker is in `TaskThread`.  `starting` is at the top of the loop; `waiting` is in `enqueue_cond.Wait`, with
`timedout` as the call will return it; `ran` has run its task and wants the lock; `exited` has returned from
`TaskThread`, and `done` is what `Done` reports. -/
inductive WorkerPc
  | starting
  | waiting (timedout : Bool)
  | running (r : Runnable)
  | ran (r : Runnable)
  | exited
  | done
  deriving DecidableEq, Repr

/-- The threads that sleep on `dequeue_cond`. -/
inductive Caller
  | client (i : Nat)
  | closer
  deriving DecidableEq, Repr

/-- Where the thread that calls `Shutdown` is. -/
inductive CloserPc
  | outside
  | waiting
  | joining (threadcopy : List Nat)
  | leftovers (tasks : List Runnable)
  | returned
  deriving DecidableEq, Repr

/-- What is read of a timeout: whether it is positive, its whole seconds, and the nanoseconds of what is left. -/
structure Timeout where
  positive : Bool
  sec : Nat
  nsec : Nat
  positive_of_pos : 0 < sec ∨ 0 < nsec → positive = true

namespace Timeout

/-- No timeout. -/
def zero : Timeout := ⟨false, 0, 0, by decide⟩

/-- `tv_nsec` of the time up to which `TimedWait` waits, when it is called at `usec` microseconds of a second. -/
def tvNsec (t : Timeout) (usec : Nat) : Nat := if 0 < t.sec ∧ 0 < t.nsec then usec * 1000 + t.nsec else usec * 1000

/-- `TimedWait` throws, because the time is not a valid one. -/
def throws (t : Timeout) (usec : Fin 1000000) : Bool := t.positive && 10 ^ 9 ≤ t.tvNsec usec

/-- The clock can make a timeout invalid exactly if it has whole seconds and a microsecond beside them. -/
theorem exists_throws_iff (t : Timeout) : (∃ usec, t.throws usec = true) ↔ 0 < t.sec ∧ 1000 ≤ t.nsec := by
  constructor
  · rintro ⟨usec, h⟩
    have hlt := usec.isLt
    rw [throws, Bool.and_eq_true, decide_eq_true_eq, tvNsec] at h
    split_ifs at h <;> omega
  · rintro ⟨hsec, hnsec⟩
    refine ⟨999999, ?_⟩
    rw [throws, t.positive_of_pos (.inl hsec), Bool.true_and, decide_eq_true_eq, tvNsec, if_pos ⟨hsec, by omega⟩]
    show 10 ^ 9 ≤ 999999 * 1000 + t.nsec
    omega

end Timeout

/-- The fields of `ThreadPool`.  A thread is named by its index among all threads the pool has ever spawned. -/
structure ThreadPool where
  enqueueCond : Condition Nat
  dequeueCond : Condition Caller
  shutdown : Bool
  taskqueue : List Runnable
  threads : List Nat
  minthreads : Nat
  maxthreads : Nat
  numthreads : Nat
  numtasks : Nat
  waiting : Nat
  timeout : Timeout
  needscleanup : Bool

/-- The workers wait with a timeout. -/
def ThreadPool.timed (p : ThreadPool) : Bool := p.timeout.positive

/-- The pool with its threads, and with the history of the tasks: those accepted by `Execute`, those that have been run,
those that a worker has counted as finished, and those that `Shutdown` has run itself.  `terminated` is set when a worker
has thrown, which ends the program. -/
structure PoolState extends ThreadPool where
  workers : List WorkerPc
  closer : CloserPc
  terminated : Bool
  accepted : List Runnable
  ran : List Runnable
  finished : List Runnable
  leftover : List Runnable

/-- `usec` are the microseconds that `gettimeofday` returns to a worker that goes to sleep. -/
inductive PoolAct
  | execute (r : Runnable) (wakes : Option Nat)
  | wait (client : Nat)
  | shutdown
  | wakes (c : Caller)
  | join
  | runLeftover
  | taskThread (i : Nat) (done dies : Option Caller) (wakes : Option Nat) (usec : Fin 1000000)
  | timeout (i : Nat)
  | run (i : Nat)
  | exits (i : Nat)
  deriving DecidableEq, Repr

namespace PoolState

def signalEnqueue (s : PoolState) (pick : Option Nat) : Option PoolState :=
  (s.enqueueCond.signal pick).map fun c => { s with enqueueCond := c }

def signalDequeue (s : PoolState) (pick : Option Caller) : Option PoolState :=
  (s.dequeueCond.signal pick).map fun c => { s with dequeueCond := c }

def setWorker (s : PoolState) (i : Nat) (pc : WorkerPc) : PoolState := { s with workers := s.workers.set i pc }

def internalCleanup (s : PoolState) : PoolState :=
  if s.needscleanup then
    { s with threads := s.threads.filter fun i => s.workers[i]? ≠ some .done, needscleanup := false }
  else s

theorem exists_internalCleanup_eq (s : PoolState) :
    ∃ threads needscleanup, s.internalCleanup = { s with threads := threads, needscleanup := needscleanup } := by
  unfold internalCleanup
  split_ifs
  · exact ⟨_, _, rfl⟩
  · exact ⟨s.threads, s.needscleanup, rfl⟩

def spawn (s : PoolState) : PoolState :=
  if s.shutdown then s
  else { s with
    threads := s.workers.length :: s.threads, workers := s.workers ++ [.starting], numthreads := s.numthreads + 1 }

/-- `Execute`; it throws after `Shutdown`. -/
def execute (s : PoolState) (r : Runnable) (wakes : Option Nat) : Option PoolState :=
  if s.shutdown then some s
  else
    let s := { s with taskqueue := s.taskqueue ++ [r], numtasks := s.numtasks + 1, accepted := s.accepted ++ [r] }
    let s := s.internalCleanup
    let s := if s.waiting = 0 ∧ s.numthreads < s.maxthreads then s.spawn else s
    s.signalEnqueue wakes

/-! ### Waiting for the tasks -/

/-- The condition of the loops around `dequeue_cond.Wait`. -/
def busy (s : PoolState) : Bool := s.numtasks ≠ 0 && s.numthreads ≠ 0

/-- A pass of the loop in `Wait`. -/
def waitLoop (s : PoolState) (client : Nat) : PoolState :=
  if s.busy then { s with dequeueCond := s.dequeueCond.wait (.client client) } else s

/-- A pass of the loop in `Shutdown`, and what follows it under the lock. -/
def shutdownLoop (s : PoolState) : PoolState :=
  if s.busy then { s with dequeueCond := s.dequeueCond.wait .closer, closer := .waiting }
  else { s with
    shutdown := true, dequeueCond := s.dequeueCond.broadcast, enqueueCond := s.enqueueCond.broadcast,
    closer := .joining s.threads }

/-! ### The workers -/

/-- A worker that finds the queue empty ends. -/
def dies (s : PoolState) (timedout : Bool) : Bool := s.shutdown || timedout && s.numthreads > s.minthreads

/-- `enqueue_cond.TimedWait` or `enqueue_cond.Wait`. -/
def waitEnqueue (s : PoolState) (i : Nat) (usec : Fin 1000000) : PoolState :=
  if s.timeout.throws usec then { s with terminated := true }
  else { s.setWorker i (.waiting false) with enqueueCond := s.enqueueCond.wait i }

/-- A pass of the loop `while (taskqueue.empty())`, and the start of a task when there is one. -/
def emptyLoop (s : PoolState) (i : Nat) (timedout : Bool) (dies : Option Caller) (wakes : Option Nat)
    (usec : Fin 1000000) : Option PoolState :=
  match s.taskqueue with
  | r :: rest => some { s.setWorker i (.running r) with taskqueue := rest }
  | [] =>
    if s.dies timedout then do
      let s := { s.setWorker i .exited with numthreads := s.numthreads - 1, needscleanup := true }
      let s ← s.signalEnqueue wakes
      s.signalDequeue dies
    else
      let s := s.internalCleanup
      some ({ s with waiting := s.waiting + 1 }.waitEnqueue i usec)

/-- The worker has run its task: `--numtasks`. -/
def finish (s : PoolState) (i : Nat) (r : Runnable) : PoolState :=
  { s.setWorker i .starting with numtasks := s.numtasks - 1, finished := s.finished ++ [r] }

/-- A section of `TaskThread` under the lock. -/
def taskThread (s : PoolState) (i : Nat) (done dies : Option Caller) (wakes : Option Nat) (usec : Fin 1000000) :
    Option PoolState :=
  match s.workers[i]? with
  | some .starting => s.emptyLoop i false dies wakes usec
  | some (.waiting timedout) => do
    let c ← s.enqueueCond.wake i
    { s with enqueueCond := c, waiting := s.waiting - 1 }.emptyLoop i timedout dies wakes usec
  | some (.ran r) => do
    let s ← (s.finish i r).signalDequeue done
    s.emptyLoop i false dies wakes usec
  | _ => none

/-- `TimedWait` gives up waiting for a signal. -/
def timesOut (s : PoolState) (i : Nat) : Option PoolState :=
  match s.workers[i]? with
  | some (.waiting _) =>
    if s.timed ∧ i ∈ s.enqueueCond.asleep then (s.setWorker i (.waiting true)).signalEnqueue (some i) else none
  | _ => none

/-! ### The thread in `Shutdown` -/

def join (s : PoolState) : Option PoolState :=
  match s.closer with
  | .joining (i :: rest) => if s.workers[i]? = some .done then some { s with closer := .joining rest } else none
  | .joining [] => some { s with threads := [], closer := .leftovers s.taskqueue }
  | _ => none

def runLeftover (s : PoolState) : Option PoolState :=
  match s.closer with
  | .leftovers (r :: rest) =>
    some { s with ran := s.ran ++ [r], leftover := s.leftover ++ [r], closer := .leftovers rest }
  | .leftovers [] => some { s with taskqueue := [], closer := .returned }
  | _ => none

/-- A step of the program. -/
def step (s : PoolState) : PoolAct → Option PoolState
  | .execute r wakes => s.execute r wakes
  | .wait i =>
    if s.dequeueCond.Has (.client i) then none
    else if s.shutdown then some s
    else some (s.waitLoop i)
  | .shutdown => if s.closer = .outside ∨ s.closer = .returned then some s.shutdownLoop else none
  | .wakes (.client i) => (s.dequeueCond.wake (.client i)).map fun c => { s with dequeueCond := c }.waitLoop i
  | .wakes .closer =>
    if s.closer = .waiting then (s.dequeueCond.wake .closer).map fun c => { s with dequeueCond := c }.shutdownLoop
    else none
  | .join => s.join
  | .runLeftover => s.runLeftover
  | .taskThread i done dies wakes usec => s.taskThread i done dies wakes usec
  | .timeout i => s.timesOut i
  | .run i =>
    match s.workers[i]? with
    | some (.running r) => some { s.setWorker i (.ran r) with ran := s.ran ++ [r] }
    | _ => none
  | .exits i => if s.workers[i]? = some .exited then some (s.setWorker i .done) else none

end PoolState

/-- A program that has ended takes no step. -/
def poolNext (s : PoolState) (a : PoolAct) : Option PoolState := if s.terminated then none else s.step a

/-- A pool as a constructor leaves it; the default constructor does not set `needscleanup`. -/
def poolStart (minthreads maxthreads : Nat) (timeout : Timeout) (needscleanup : Bool) : PoolState where
  enqueueCond := .empty
  dequeueCond := .empty
  shutdown := false
  taskqueue := []
  threads := []
  minthreads := minthreads
  maxthreads := if minthreads > maxthreads then minthreads else maxthreads
  numthreads := 0
  numtasks := 0
  waiting := 0
  timeout := timeout
  needscleanup := needscleanup
  workers := []
  closer := .outside
  terminated := false
  accepted := []
  ran := []
  finished := []
  leftover := []

def threadPool : Machine PoolState PoolAct where
  init s := ∃ minthreads maxthreads timeout needscleanup, s = poolStart minthreads maxthreads timeout needscleanup
  next := poolNext

end ProcessNetwork
