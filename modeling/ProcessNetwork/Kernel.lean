import ProcessNetwork.Lib.Machine

/-!
# The kernel thread and the nodes of a kernel

`Kernel::EntryPoint` of a kernel without remote operation, with the operations of other threads that it works with:
`CreateNode`, the external endpoints, the threads of the nodes in `NodeBase::EntryPoint`, and `Context::Terminate`.  A
step is a section of code under `nodelock`, a change of `status`, or a call of the context, which has a lock of its own.
A key is the index of a node among all nodes for which a key has been created, and stands for its name as well.

The kernel thread is the only thread that waits on `nodecond`.
-/

namespace ProcessNetwork

inductive KernelStatus
  | initialized
  | running
  | terminate
  | done
  deriving DecidableEq, Repr

/-- Where the kernel thread is in `EntryPoint`.  `waiting` sleeps in `nodecond.Wait` of the first loop, `woken` has been
signalled and wants the lock; `final...` is the same in the loop that waits for the nodes. -/
inductive KernelPc
  | starting
  | signalStart
  | clearFirst
  | loop
  | waiting
  | woken
  | clearing
  | notifying
  | clearBefore
  | finalLoop
  | finalWaiting
  | finalWoken
  | finalClearing
  | clearLast
  | signalEnd
  | post
  | stopped
  deriving DecidableEq, Repr

/-- A node with a thread: its key has been created, `InternalCreateNode` has failed, or its thread is before
`SignalNodeStart`, in `Process`, before `SignalNodeEnd`, after it, or has ended. -/
inductive ThreadPc
  | keyed
  | rejected
  | spawned
  | processing
  | ending
  | ended
  | finished
  deriving DecidableEq, Repr

/-- An external endpoint: its key has been created, it is in the node map, `CreateExternalEndpoint` has returned, or has
thrown a `ShutdownException`. -/
inductive EndpointPc
  | keyed
  | inserted
  | created
  | refused
  deriving DecidableEq, Repr

inductive KernelNode
  | real (pc : ThreadPc)
  | external (pc : EndpointPc)
  deriving DecidableEq, Repr

/-- A thread in `DestroyExternalEndpoint`, which has the key, has found the entry, has called `SignalNodeEnd`, or is
out. -/
inductive DestroyerPc
  | looking
  | found
  | ended
  | out
  deriving DecidableEq, Repr

structure KernelState where
  status : KernelStatus
  nodecondSignal : Bool
  nodemap : List Nat
  garbagenodes : List Nat
  thread : KernelPc
  /-- `shutdown` of the context -/
  terminated : Bool
  /-- `dead` in the entry of the kernel in the context -/
  dead : Bool
  nodes : List KernelNode
  destroyers : List (Nat × DestroyerPc)
  /-- threads in `Terminate` that are about to call `NotifyTerminate` -/
  terminating : Nat
  /-- threads in `NotifyTerminate` that have changed the status -/
  waking : Nat
  /-- iterations of the first loop that did not wait -/
  spins : Nat
  /-- calls of `SendWakeup` and `NodeTerminated` -/
  calls : Nat

inductive KernelAct
  | thread
  | createNode
  | internalCreateNode (i : Nat) (factory : Bool)
  | createExternal
  | endpoint (i : Nat)
  | node (i : Nat)
  | destroy (i : Nat)
  | destroyer (j : Nat)
  | terminate
  | notifyTerminate
  | sendWakeup
  deriving DecidableEq, Repr

/-- The thread that a signal on `nodecond` wakes. -/
def KernelPc.signal : KernelPc → KernelPc
  | waiting => woken
  | finalWaiting => finalWoken
  | pc => pc

namespace KernelState

/-- `nodecond.Signal(); nodecond_signal = true;` -/
def wake (s : KernelState) : KernelState := { s with thread := s.thread.signal, nodecondSignal := true }

/-- The section of `NodeTerminated` under `nodelock`, which throws when the node is not in the map. -/
def nodeTerminated (s : KernelState) (key : Nat) : KernelState :=
  if s.status = .done then s.wake
  else if key ∈ s.nodemap then
    -- `SendWakeup` is called here, and the same is then done once more
    { s with
      nodemap := s.nodemap.erase key, garbagenodes := s.garbagenodes ++ [key], calls := s.calls + 1 }.wake.wake
  else s

def clearGarbage (s : KernelState) : KernelState := { s with garbagenodes := [] }

/-- A step of the kernel thread. -/
def entryPoint (s : KernelState) : Option KernelState :=
  match s.thread with
  | .starting =>
    some { s with status := if s.status = .initialized then .running else s.status, thread := .signalStart }
  | .signalStart => some { s with thread := if s.terminated then .notifying else .clearFirst }
  | .clearFirst => some { s.clearGarbage with thread := .loop }
  | .loop =>
    if s.status = .running then
      if s.nodecondSignal then some { s with thread := .clearing, spins := s.spins + 1 }
      else some { s with thread := .waiting }
    else some { s with thread := .notifying }
  | .waiting => none
  | .woken => some { s with nodecondSignal := false, thread := .clearing }
  | .clearing => some { s.clearGarbage with thread := .loop }
  -- `NotifyTerminate` of the nodes only wakes threads that wait for a port
  | .notifying => some { s with thread := .clearBefore }
  | .clearBefore => some { s.clearGarbage with thread := .finalLoop }
  | .finalLoop =>
    if s.nodemap = [] then some { s with thread := .clearLast }
    else if s.nodecondSignal then some { s with thread := .finalClearing }
    else some { s with thread := .finalWaiting }
  | .finalWaiting => none
  | .finalWoken => some { s with nodecondSignal := false, thread := .finalClearing }
  | .finalClearing => some { s.clearGarbage with thread := .finalLoop }
  | .clearLast => some { s.clearGarbage with thread := .signalEnd }
  | .signalEnd => some { s with dead := true, thread := .post }
  | .post => some { s with status := .done, thread := .stopped }
  | .stopped => none

def setNode (s : KernelState) (i : Nat) (pc : KernelNode) : KernelState := { s with nodes := s.nodes.set i pc }

/-- `InternalCreateNode`; there may be no factory for the type of the node. -/
def internalCreateNode (s : KernelState) (i : Nat) (factory : Bool) : Option KernelState :=
  if s.nodes[i]? = some (.real .keyed) then
    if s.status = .running ∧ factory then some { s.setNode i (.real .spawned) with nodemap := i :: s.nodemap }
    else some (s.setNode i (.real .rejected))
  else none

/-- A step of the thread of a node in `NodeBase::EntryPoint`. -/
def node (s : KernelState) (i : Nat) : Option KernelState :=
  match s.nodes[i]? with
  | some (.real .spawned) => some (s.setNode i (.real (if s.terminated then .ending else .processing)))
  | some (.real .processing) => some (s.setNode i (.real .ending))
  | some (.real .ending) => some { s.setNode i (.real .ended) with calls := s.calls + 1 }
  | some (.real .ended) => some ((s.nodeTerminated i).setNode i (.real .finished))
  | _ => none

/-- A step of the thread in `CreateExternalEndpoint`. -/
def endpoint (s : KernelState) (i : Nat) : Option KernelState :=
  match s.nodes[i]? with
  | some (.external .keyed) => some { s.setNode i (.external .inserted) with nodemap := i :: s.nodemap }
  | some (.external .inserted) => some (s.setNode i (.external (if s.terminated then .refused else .created)))
  | _ => none

/-- The node is not a node with a thread. -/
def isPurePseudo (s : KernelState) (i : Nat) : Bool :=
  match s.nodes[i]? with
  | some (.external _) => true
  | _ => false

def setDestroyer (s : KernelState) (j i : Nat) (pc : DestroyerPc) : KernelState :=
  { s with destroyers := s.destroyers.set j (i, pc) }

/-- A step of a thread in `DestroyExternalEndpoint`. -/
def destroyer (s : KernelState) (j : Nat) : Option KernelState :=
  match s.destroyers[j]? with
  | some (i, .looking) => some (s.setDestroyer j i (if i ∈ s.nodemap ∧ s.isPurePseudo i then .found else .out))
  | some (i, .found) => some { s.setDestroyer j i .ended with calls := s.calls + 1 }
  | some (i, .ended) => some ((s.nodeTerminated i).setDestroyer j i .out)
  | _ => none

/-- `NotifyTerminate`, up to the call of `SendWakeup`. -/
def notifyTerminate (s : KernelState) : KernelState :=
  if s.dead then { s with terminating := s.terminating - 1 }
  else if s.status = .running then
    { s with status := .terminate, terminating := s.terminating - 1, waking := s.waking + 1, calls := s.calls + 1 }
  else { s with terminating := s.terminating - 1 }

end KernelState

def kernelNext (s : KernelState) : KernelAct → Option KernelState
  | .thread => s.entryPoint
  | .createNode => if s.terminated then none else some { s with nodes := s.nodes ++ [.real .keyed] }
  | .internalCreateNode i factory => s.internalCreateNode i factory
  | .createExternal => if s.terminated then none else some { s with nodes := s.nodes ++ [.external .keyed] }
  | .endpoint i => s.endpoint i
  | .node i => s.node i
  | .destroy i =>
    if s.terminated ∨ s.nodes.length ≤ i then none else some { s with destroyers := s.destroyers ++ [(i, .looking)] }
  | .destroyer j => s.destroyer j
  | .terminate => some { s with terminated := true, terminating := s.terminating + 1 }
  | .notifyTerminate => if s.terminating = 0 then none else some s.notifyTerminate
  | .sendWakeup => if s.waking = 0 then none else some { s with waking := s.waking - 1 }.wake

def kernelStart : KernelState where
  status := .initialized
  nodecondSignal := false
  nodemap := []
  garbagenodes := []
  thread := .starting
  terminated := false
  dead := false
  nodes := []
  destroyers := []
  terminating := 0
  waking := 0
  spins := 0
  calls := 0

def kernel : Machine KernelState KernelAct where
  init s := s = kernelStart
  next := kernelNext

end ProcessNetwork
