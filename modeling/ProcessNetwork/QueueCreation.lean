import ProcessNetwork.LocalContext
import ProcessNetwork.Lib.Machine

/-!
# Creating queues

`Kernel::CreateQueue` for kernels that share a local context.  The call looks up or creates the keys of the two ports,
connects the ports in the context, and only then makes the ends of the queue in the two nodes, where a port that has a
queue already is refused.  The context and the node have been changed by then: a call is refused without leaving a trace
only if it is never refused.
-/

namespace ProcessNetwork.Registry

open Exceptions

/-! ### The kernels and what they keep -/

/-- A node of the detection, as a queue knows it. -/
inductive D4RNode
  | node (key : Key)
  | mock
deriving DecidableEq, Repr

structure Queue where
  /-- `readerkey` and `writerkey`. -/
  portkey : Side → Key
  /-- `reader` and `writer`. -/
  node : Side → Option D4RNode := fun _ => none
  /-- `readtagchanged` and `writetagchanged`. -/
  tagchanged : Side → Bool := fun _ => false

/-- A node as its kernel sees it, with queues as indices into the table of all queues. -/
structure PseudoNode where
  /-- `readermap` and `writermap`. -/
  map : Side → Key → Option Nat := fun _ _ => none
  /-- `readerlist` and `writerlist` of the node of the detection. -/
  list : Side → List Nat := fun _ => []

/-- The kernels of one program, each under its key. -/
structure Kernels where
  context : LocalContext := {}
  useremote : Key → Bool := fun _ => false
  nodemap : Key → Key → Option PseudoNode := fun _ _ => none
  remotequeueholder : Key → Key → Option Nat := fun _ _ => none
  /-- All queues that have been made. -/
  queues : List Queue := []
  /-- The destructor of a remote queue that was not shut down has aborted the program. -/
  aborted : Bool := false

structure QueueAttr where
  name : String := ""
  nodename : Side → String := fun _ => ""
  portname : Side → String := fun _ => ""
  portkey : Side → Key := fun _ => 0
  nodekey : Side → Key := fun _ => 0

structure SimpleQueueAttr where
  portkey : Side → Key
  nodekey : Side → Key

def PseudoNode.listed (side : Side) (q : Nat) (pnode : PseudoNode) : PseudoNode :=
  { pnode with list := Function.update pnode.list side (pnode.list side ++ [q]) }

def PseudoNode.mapped (side : Side) (key : Key) (q : Nat) (pnode : PseudoNode) : PseudoNode :=
  { pnode with map := Function.update pnode.map side (Function.update (pnode.map side) key (some q)) }

/-- The queue after `SetReaderNode` and `SignalReaderTagChanged`, or the writer's. -/
def Queue.joined (side : Side) (node : Key) (queue : Queue) : Queue :=
  { queue with
    node := Function.update queue.node side (some (.node node))
    tagchanged := Function.update queue.tagchanged side true }

namespace Kernels

abbrev Proc := EStateM Stop Kernels

def onContext {α : Type} : LocalContext.Proc α → Proc α := focus context fun c s => { s with context := c }

def setNode (kernel node : Key) (pnode : PseudoNode) (s : Kernels) : Kernels :=
  { s with nodemap := Function.update s.nodemap kernel (Function.update (s.nodemap kernel) node (some pnode)) }

def newQueue (queue : Queue) : Proc Nat := do
  let q := (← get).queues.length
  modify fun s => { s with queues := s.queues ++ [queue] }
  return q

def alreadyExists : Side → String
  | .reader => "The reader already exists"
  | .writer => "The writer already exists."

/-- `PseudoNode::CreateReader` and `CreateWriter`. -/
def create (side : Side) (kernel node : Key) (q : Nat) : Proc Unit := do
  let s ← get
  match s.nodemap kernel node, s.queues[q]? with
  | some pnode, some queue =>
    modify (setNode kernel node (pnode.listed side q))
    modify fun s => { s with queues := s.queues.set q (queue.joined side node) }
    -- only here is the port looked up
    throwIf (pnode.map side (queue.portkey side)).isSome (.assertion (alreadyExists side))
    modify (setNode kernel node ((pnode.listed side q).mapped side (queue.portkey side) q))
  | _, _ => throw .undefined

/-! ### Kernel -/

/-- A remote queue, whose other end has a stand-in for its node. -/
def remoteQueue (side : Side) (attr : SimpleQueueAttr) : Queue where
  portkey := attr.portkey
  node := Function.update (fun _ => none) side.other (some .mock)

def hasNode (kernel node : Key) (what : String) : Proc Unit := do
  throwIf ((← get).nodemap kernel node).isNone (.assertion what)

def createLocalQueue (kernel : Key) (attr : SimpleQueueAttr) : Proc Unit := do
  let q ← newQueue { portkey := attr.portkey }
  hasNode kernel (attr.nodekey .reader) "Tried to connect a queue to a node that doesn't exist."
  hasNode kernel (attr.nodekey .writer) "Tried to connect a queue to a node that doesn't exist."
  create .writer kernel (attr.nodekey .writer) q
  create .reader kernel (attr.nodekey .reader) q

def assertRemote (kernel : Key) : Proc Unit := do
  throwIf (¬ (← get).useremote kernel)
    (.assertion "Cannot create remote queue without enabling remote operations.")

/-- `RemoteQueueHolder::AddQueue`, which keeps the queue that it has under the key. -/
def addQueue (kernel key : Key) (q : Nat) : Proc Unit :=
  modify fun s =>
    if (s.remotequeueholder kernel key).isSome then s
    else { s with remotequeueholder :=
      Function.update s.remotequeueholder kernel (Function.update (s.remotequeueholder kernel) key (some q)) }

/-- An exception that unwinds past a remote queue destroys the queue, unless the holder has it, and the destructor aborts. -/
def orAbort (kernel key : Key) (q : Nat) (x : Proc Unit) : Proc Unit := fun s =>
  match x s with
  | .ok () t => .ok () t
  | .error e t => .error e { t with aborted := t.aborted || t.remotequeueholder kernel key != some q }

/-- `CreateReaderEndpoint` and `CreateWriterEndpoint`. -/
def createEndpoint (side : Side) (kernel : Key) (attr : SimpleQueueAttr) : Proc Unit := do
  assertRemote kernel
  let q ← newQueue (remoteQueue side attr)
  orAbort kernel (attr.portkey side) q do
    hasNode kernel (attr.nodekey side) "Node not found!?"
    addQueue kernel (attr.portkey side) q
    create side kernel (attr.nodekey side) q

/-- The kernel that `SendCreateWriter`, `SendCreateReader` and `SendCreateQueue` call, which asserts `useremote`. -/
def send (kernel : Key) (call : Proc Unit) : Proc Unit := do
  onContext LocalContext.internalCheckTerminated
  throwIf ((← get).context.kernelmap kernel).isNone .undefined
  throwIf (¬ (← get).useremote kernel) (.assertion "useremote")
  call

def sendCreateQueue (kernel : Key) (attr : SimpleQueueAttr) : Proc Unit := send kernel (createLocalQueue kernel attr)

/-- `SendCreateReader` and `SendCreateWriter`. -/
def sendCreate (side : Side) (kernel : Key) (attr : SimpleQueueAttr) : Proc Unit :=
  send kernel (createEndpoint side kernel attr)

def unspecified : Side → String
  | .reader => "The reader side must be specified with the reader key" ++
      " or the reader name and node key or the reader name and" ++ " node name."
  | .writer => "The writer side must be specified with the writer key" ++
      " or the writer name and node key or the writer name and" ++ " node name."

/-- The node of a side that is given by the name of its port. -/
def nodeOf (side : Side) (qattr : QueueAttr) : LocalContext.Proc Key := do
  if qattr.nodekey side = 0 then
    throwIf (qattr.nodename side = "") (.invalidArgument (unspecified side))
    LocalContext.waitForNodeStart (qattr.nodename side)
  else return qattr.nodekey side

/-- The keys of the node and of the port on one side, from the keys or the names that the attributes give. -/
def normalizeSide (side : Side) (qattr : QueueAttr) : LocalContext.Proc (Key × Key) := do
  if qattr.portkey side = 0 then
    let nodekey ← nodeOf side qattr
    throwIf (qattr.portname side = "") (.invalidArgument "Ether the port key or port name must be specified.")
    return (nodekey, ← LocalContext.getCreatePortKey side nodekey (qattr.portname side))
  else if qattr.nodekey side = 0 then return (← LocalContext.getPortNode side (qattr.portkey side), qattr.portkey side)
  else return (qattr.nodekey side, qattr.portkey side)

def normalize (qattr : QueueAttr) : LocalContext.Proc SimpleQueueAttr := do
  let reader ← normalizeSide .reader qattr
  let writer ← normalizeSide .writer qattr
  return {
    nodekey := fun side => match side with | .reader => reader.1 | .writer => writer.1
    portkey := fun side => match side with | .reader => reader.2 | .writer => writer.2 }

/-- The ends of the queue, each made by the kernel that its node is on. -/
def place (kernelkey : Key) (attr : SimpleQueueAttr) : Proc Unit := do
  let readerkernel ← onContext (LocalContext.getNodeKernel (attr.nodekey .reader))
  let writerkernel ← onContext (LocalContext.getNodeKernel (attr.nodekey .writer))
  if readerkernel = writerkernel then
    if readerkernel = kernelkey then createLocalQueue kernelkey attr
    else
      assertRemote kernelkey
      sendCreateQueue readerkernel attr
  else if readerkernel = kernelkey then
    assertRemote kernelkey
    createEndpoint .reader kernelkey attr
    sendCreate .writer writerkernel attr
  else if writerkernel = kernelkey then
    assertRemote kernelkey
    createEndpoint .writer kernelkey attr
    sendCreate .reader readerkernel attr
  else
    assertRemote kernelkey
    sendCreate .writer writerkernel attr
    sendCreate .reader readerkernel attr

def createQueue (kernelkey : Key) (qattr : QueueAttr) : Proc Unit := do
  let attr ← onContext (normalize qattr)
  onContext (LocalContext.connectEndpoints (attr.portkey .writer) (attr.portkey .reader) qattr.name)
  place kernelkey attr

/-! ### What a call leaves alone in the context -/

open LocalContext (Fresh Extends)

variable {P : LocalContext → Prop} {side : Side} {kernel node q : Nat} {attr : SimpleQueueAttr}

theorem onContext_ok {α : Type} {x : LocalContext.Proc α} {s : Kernels} {a : α} {c : LocalContext}
    (h : x s.context = .ok a c) : onContext x s = .ok a { s with context := c } := focus_ok h

private theorem onContext_error {α : Type} {x : LocalContext.Proc α} {s : Kernels} {e : Stop} {c : LocalContext}
    (h : x s.context = .error e c) : onContext x s = .error e { s with context := c } := focus_error h

private theorem maintains_onContext {α : Type} {x : LocalContext.Proc α} (hx : Maintains P x) :
    Maintains (fun s => P s.context) (onContext x) := .focus (fun _ _ => rfl) hx

private theorem maintains_create : Maintains (fun s => P s.context) (create side kernel node q) := by
  refine Maintains.get.bind fun s => ?_
  split
  · refine Maintains.bind (.modify fun _ h => ?_) fun _ => Maintains.bind (.modify fun _ h => ?_) fun _ =>
      Maintains.bind (.throwIf _ _) fun _ => .modify fun _ h => ?_
    all_goals exact h
  · exact .throw _

private theorem maintains_newQueue (queue : Queue) : Maintains (fun s => P s.context) (newQueue queue) := by
  refine Maintains.get.bind fun _ => Maintains.bind (.modify fun _ h => ?_) fun _ => .pure _
  exact h

private theorem maintains_hasNode (what : String) : Maintains (fun s => P s.context) (hasNode kernel node what) :=
  Maintains.get.bind fun _ => .throwIf _ _

private theorem maintains_assertRemote : Maintains (fun s => P s.context) (assertRemote kernel) :=
  Maintains.get.bind fun _ => .throwIf _ _

private theorem maintains_createLocalQueue : Maintains (fun s => P s.context) (createLocalQueue kernel attr) :=
  (maintains_newQueue _).bind fun _ => (maintains_hasNode _).bind fun _ => (maintains_hasNode _).bind fun _ =>
    maintains_create.bind fun _ => maintains_create

private theorem maintains_orAbort {key : Key} {x : Proc Unit} (hx : Maintains (fun s => P s.context) x) :
    Maintains (fun s => P s.context) (orAbort kernel key q x) := by
  intro s hs
  have h := hx s hs
  unfold orAbort
  cases hr : x s with
  | ok a t =>
    rw [hr] at h
    exact h
  | error e t =>
    rw [hr] at h
    exact h

private theorem maintains_createEndpoint : Maintains (fun s => P s.context) (createEndpoint side kernel attr) := by
  refine maintains_assertRemote.bind fun _ => (maintains_newQueue _).bind fun _ => maintains_orAbort ?_
  refine (maintains_hasNode _).bind fun _ => Maintains.bind (.modify fun s h => ?_) fun _ => maintains_create
  split_ifs <;> exact h

private theorem maintains_send {call : Proc Unit} (h : Maintains (fun s => P s.context) call) :
    Maintains (fun s => P s.context) (send kernel call) := by
  refine (maintains_onContext LocalContext.maintains_internalCheckTerminated).bind fun _ => Maintains.get.bind fun _ => ?_
  refine Maintains.bind (.throwIf _ _) fun _ => Maintains.get.bind fun _ => ?_
  exact Maintains.bind (.throwIf _ _) fun _ => h

/-- Making the ends of a queue does not touch the context. -/
theorem maintains_place : Maintains (fun s => P s.context) (place kernel attr) := by
  have hkernel (k : Key) : Maintains (fun s => P s.context) (onContext (LocalContext.getNodeKernel k)) :=
    maintains_onContext (LocalContext.maintains_internalCheckTerminated.bind fun _ =>
      (LocalContext.maintains_lookup _ _).bind fun _ => .pure _)
  refine (hkernel _).bind fun readerkernel => (hkernel _).bind fun writerkernel => .ite (fun _ => ?_) fun _ => ?_
  · exact .ite (fun _ => maintains_createLocalQueue) fun _ =>
      maintains_assertRemote.bind fun _ => maintains_send maintains_createLocalQueue
  · refine .ite (fun _ => ?_) fun _ => .ite (fun _ => ?_) fun _ => ?_
    · exact maintains_assertRemote.bind fun _ => maintains_createEndpoint.bind fun _ =>
        maintains_send maintains_createEndpoint
    · exact maintains_assertRemote.bind fun _ => maintains_createEndpoint.bind fun _ =>
        maintains_send maintains_createEndpoint
    · exact maintains_assertRemote.bind fun _ => (maintains_send maintains_createEndpoint).bind fun _ =>
        maintains_send maintains_createEndpoint

private theorem extends_normalizeSide {c₀ : LocalContext} (qattr : QueueAttr) :
    Maintains (Extends c₀) (normalizeSide side qattr) := by
  have hnode : Maintains (Extends c₀) (nodeOf side qattr) := by
    refine .ite (fun _ => Maintains.bind (.throwIf _ _) fun _ => ?_) fun _ => .pure _
    exact LocalContext.maintains_waitForNodeStart _
  refine .ite (fun _ => hnode.bind fun _ => Maintains.bind (.throwIf _ _) fun _ => ?_) fun _ =>
    .ite (fun _ => ?_) fun _ => .pure _
  · exact (LocalContext.extends_getCreatePortKey _ _ _).bind fun _ => .pure _
  · exact (LocalContext.maintains_getPortNode _ _).bind fun _ => .pure _

theorem extends_normalize (c₀ : LocalContext) (qattr : QueueAttr) : Maintains (Extends c₀) (normalize qattr) :=
  (extends_normalizeSide qattr).bind fun _ => (extends_normalizeSide qattr).bind fun _ => .pure _

/-! ### The ports that are connected -/

section Connections

open LocalContext (getReadersWriter getWritersReader getOpposingPort_run setPort_ports connectEndpoints_run)

variable {c c' : LocalContext} {w r : Key}

/-- `GetReadersWriter(GetWritersReader(w)) = w` for every writer port `w` that is connected. -/
def RoundTrip (c : LocalContext) : Prop :=
  ∀ w r, getWritersReader w c = .ok r c → r ≠ 0 → getReadersWriter r c = .ok w c

/-- No other writer port than `w` is connected to the reader port `r`. -/
def Unshared (c : LocalContext) (w r : Key) : Prop := ∀ w', w' ≠ w → getWritersReader w' c ≠ .ok r c

/-- The reader port of every connected writer port is connected to it. -/
def Paired (c : LocalContext) : Prop := ∀ w port, c.ports .writer w = some port → port.opposingport ≠ 0 →
  ∃ port', c.ports .reader port.opposingport = some port' ∧ port'.opposingport = w

private theorem getOpposingPort_eq_ok {side : Side} {what : String} {k a : Key} (hs : c.shutdown = false) :
    LocalContext.getOpposingPort side what k c = .ok a c ↔
      ∃ port, c.ports side k = some port ∧ port.opposingport = a := by
  constructor
  · intro h
    cases hk : c.ports side k with
    | none =>
      unfold LocalContext.getOpposingPort at h
      rw [bind_ok (LocalContext.internalCheckTerminated_run hs), bind_error (LocalContext.lookup_none hk)] at h
      cases h
    | some port =>
      rw [getOpposingPort_run hs hk] at h
      cases h
      exact ⟨port, rfl, rfl⟩
  · rintro ⟨port, hk, rfl⟩
    exact getOpposingPort_run hs hk

private theorem getOpposingPort_shutdown {side : Side} {what : String} {k : Key} (hs : c.shutdown = true) :
    LocalContext.getOpposingPort side what k c = .error .shutdown c := by
  unfold LocalContext.getOpposingPort
  refine bind_error ?_
  unfold LocalContext.internalCheckTerminated
  rw [bind_ok get_run, throwIf_pos hs]

theorem roundTrip_iff (hs : c.shutdown = false) : RoundTrip c ↔ Paired c := by
  constructor
  · intro h w port hw hne
    exact (getOpposingPort_eq_ok hs).1 (h w _ ((getOpposingPort_eq_ok hs).2 ⟨port, hw, rfl⟩) hne)
  · intro h w r hw hne
    obtain ⟨port, hk, rfl⟩ := (getOpposingPort_eq_ok hs).1 hw
    exact (getOpposingPort_eq_ok hs).2 (h w port hk hne)

theorem Paired.roundTrip (h : Paired c) : RoundTrip c := by
  cases hs : c.shutdown with
  | false => exact (roundTrip_iff hs).2 h
  | true =>
    intro w r hw
    rw [getWritersReader, getOpposingPort_shutdown hs] at hw
    cases hw

private theorem unshared_iff (hs : c.shutdown = false) :
    Unshared c w r ↔ ∀ w' port, w' ≠ w → c.ports .writer w' = some port → port.opposingport ≠ r := by
  constructor
  · intro h w' port hne hk heq
    exact h w' hne ((getOpposingPort_eq_ok hs).2 ⟨port, hk, heq⟩)
  · intro h w' hne hw
    obtain ⟨port, hk, heq⟩ := (getOpposingPort_eq_ok hs).1 hw
    exact h w' port hne hk heq

private theorem Paired.extends (h : Paired c) (hc : Fresh c) (he : Extends c c') : Paired c' := by
  intro w port hw hne
  rcases he.ports .writer w with heq | ⟨-, -, port', hport', hzero⟩
  · obtain ⟨p, hp, hopp⟩ := h w port (heq ▸ hw) hne
    rcases he.ports .reader port.opposingport with heq' | ⟨hlt, -⟩
    · exact ⟨p, heq'.trans hp, hopp⟩
    · exact absurd hlt (Nat.not_lt.2 (hc .reader port.opposingport (by rw [hp]; rfl)).2)
  · rw [hport'] at hw
    cases hw
    exact absurd hzero hne

/-- A registry that is extended has the same connections. -/
theorem unshared_extends (hc : Fresh c) (he : Extends c c') (hs : c.shutdown = false) (hs' : c'.shutdown = false)
    (hr : r ≠ 0) : Unshared c' w r ↔ Unshared c w r := by
  rw [unshared_iff hs, unshared_iff hs']
  constructor
  · intro h w' port hne hk
    rcases he.ports .writer w' with heq | ⟨hlt, -⟩
    · exact h w' port hne (heq.trans hk)
    · exact absurd hlt (Nat.not_lt.2 (hc .writer w' (by rw [hk]; rfl)).2)
  · intro h w' port hne hk
    rcases he.ports .writer w' with heq | ⟨-, -, port', hport', hzero⟩
    · exact h w' port hne (heq ▸ hk)
    · rw [hport'] at hk
      cases hk
      rw [hzero]
      exact hr.symm

variable {writer reader : PortInfo}

theorem ports_connected (qname : String) (hw : c.ports .writer w = some writer) (hr : c.ports .reader r = some reader) :
    let c' := final (LocalContext.connectEndpoints w r qname c)
    c.shutdown = false → c'.shutdown = false ∧ c'.counter = c.counter ∧
      c'.ports .writer = Function.update (c.ports .writer) w (some { writer with opposingport := r, qname := qname }) ∧
      c'.ports .reader = Function.update (c.ports .reader) r (some { reader with opposingport := w, qname := qname }) := by
  intro c' hs
  have hc' : c' = _ := congrArg final (connectEndpoints_run qname hs hw hr)
  rw [hc']
  exact ⟨hs, rfl, rfl, rfl⟩

/-- Connecting two ports keeps the connections in pairs exactly when no other writer has the reader. -/
theorem paired_connected_iff (qname : String) (h : Paired c) (hs : c.shutdown = false) (hne : r ≠ 0)
    (hw : c.ports .writer w = some writer) (hr : c.ports .reader r = some reader) :
    Paired (final (LocalContext.connectEndpoints w r qname c)) ↔ Unshared c w r := by
  obtain ⟨-, -, hwriter, hreader⟩ := ports_connected qname hw hr hs
  rw [unshared_iff hs]
  constructor
  · intro h' w' port hne' hk heq
    obtain ⟨p, hp, hopp⟩ := h' w' port (by rw [hwriter, Function.update_of_ne hne', hk]) (heq ▸ hne)
    rw [heq, hreader, Function.update_self] at hp
    cases hp
    exact hne' hopp.symm
  · intro hun w' port hk hport
    rw [hwriter] at hk
    by_cases heq : w' = w
    · subst heq
      rw [Function.update_self] at hk
      cases hk
      exact ⟨_, by rw [hreader, Function.update_self], rfl⟩
    · rw [Function.update_of_ne heq] at hk
      obtain ⟨p, hp, hopp⟩ := h w' port hk hport
      exact ⟨p, by rw [hreader, Function.update_of_ne (hun w' port heq hk), hp], hopp⟩

end Connections

/-! ### Runs -/

/-- What the program does to the registry, the nodes and the queues. -/
inductive Act
  | setupKernel (name hostname servname : String) (useremote : Bool)
  | createNodeKey (kernel : Key) (name : String)
  | insertNode (kernel node : Key)
  | signalNodeStart (node : Key)
  | nodeTerminated (kernel node : Key)
  /-- `GetIQueue` and `GetOQueue`, up to the wait for the queue. -/
  | getQueue (side : Side) (node : Key) (portname : String)
  /-- `ReleaseReader` and `ReleaseWriter`. -/
  | release (side : Side) (kernel node key : Key)
  | createQueue (kernel : Key) (qattr : QueueAttr)
  | terminate

/-- The node map without the node. -/
def erase (kernel node : Key) (s : Kernels) : Kernels :=
  { s with nodemap := Function.update s.nodemap kernel (Function.update (s.nodemap kernel) node none) }

def PseudoNode.released (side : Side) (key : Key) (pnode : PseudoNode) : PseudoNode :=
  { pnode with map := Function.update pnode.map side (Function.update (pnode.map side) key none) }

def perform : Act → Proc Unit
  | .setupKernel name hostname servname useremote => do
    let key ← onContext <|
      if useremote then LocalContext.setupKernel name hostname servname else LocalContext.setupLocalKernel name
    modify fun s => { s with useremote := Function.update s.useremote key useremote }
  | .createNodeKey kernel name => do
    let _ ← onContext (LocalContext.createNodeKey kernel name)
  | .insertNode kernel node =>
    modify fun s => if (s.nodemap kernel node).isSome then s else s.setNode kernel node {}
  | .signalNodeStart node => onContext (LocalContext.signalNodeStart node)
  | .nodeTerminated kernel node => do
    onContext (LocalContext.signalNodeEnd node)
    modify (erase kernel node)
  | .getQueue side node portname => do
    let _ ← onContext (LocalContext.getCreatePortKey side node portname)
  | .release side kernel node key =>
    modify fun s => match s.nodemap kernel node with
      | some pnode => s.setNode kernel node (PseudoNode.released side key pnode)
      | none => s
  | .createQueue kernel qattr => createQueue kernel qattr
  | .terminate => onContext LocalContext.terminate

/-- The kernels of one program.  A call that throws has done what it did. -/
def machine : Machine Kernels Act where
  init s := s = {}
  next s a := some (final (perform a s))

/-- What holds of the registry in every state, along runs that keep the connections in pairs. -/
structure Sound (c : LocalContext) : Prop where
  fresh : Fresh c
  paired : Paired c

theorem Sound.extends {c c' : LocalContext} (h : Sound c) (he : Extends c c') : Sound c' :=
  ⟨he.fresh h.fresh, h.paired.extends h.fresh he⟩

private theorem maintains_of_extends {α : Type} {x : LocalContext.Proc α} (hP : ∀ c c', P c → Extends c c' → P c')
    (hx : ∀ c, Maintains (Extends c) x) : Maintains (fun s => P s.context) (onContext x) :=
  maintains_onContext fun c hc => hP c _ hc (hx c c (.refl c))

/-- A call of the program other than `CreateQueue` only adds to the registry. -/
theorem maintains_perform {a : Act} (hP : ∀ c c', P c → Extends c c' → P c')
    (ha : ∀ kernel qattr, a ≠ .createQueue kernel qattr) :
    Maintains (fun s => P s.context) (perform a) := by
  cases a with
  | setupKernel name hostname servname useremote =>
    refine Maintains.bind ?_ fun _ => .modify fun _ h => h
    refine maintains_of_extends hP fun c => ?_
    split_ifs
    · exact LocalContext.extends_setup _
    · exact LocalContext.extends_setup _
  | createNodeKey kernel name =>
    exact (maintains_of_extends hP fun c => LocalContext.extends_createNodeKey _ _).bind fun _ => .pure _
  | insertNode kernel node =>
    refine .modify fun s h => ?_
    split_ifs
    · exact h
    · exact h
  | signalNodeStart node => exact maintains_of_extends hP fun c => LocalContext.extends_signalNodeStart _
  | nodeTerminated kernel node =>
    exact (maintains_of_extends hP fun c => LocalContext.extends_signalNodeEnd _).bind fun _ => .modify fun _ h => h
  | getQueue side node portname =>
    exact (maintains_of_extends hP fun c => LocalContext.extends_getCreatePortKey _ _ _).bind fun _ => .pure _
  | release side kernel node key =>
    refine .modify fun s h => ?_
    split
    · exact h
    · exact h
  | createQueue kernel qattr => exact absurd rfl (ha kernel qattr)
  | terminate => exact maintains_of_extends hP fun c => LocalContext.extends_terminate

/-- The registry after `CreateQueue`: the ports have been looked up, and are connected if they exist. -/
theorem context_createQueue (s : Kernels) (kernel : Key) (qattr : QueueAttr) :
    (∃ e, normalize qattr s.context = .error e (final (createQueue kernel qattr s)).context) ∨
    ∃ attr c, normalize qattr s.context = .ok attr c ∧ (final (createQueue kernel qattr s)).context =
      final (LocalContext.connectEndpoints (attr.portkey .writer) (attr.portkey .reader) qattr.name c) := by
  unfold createQueue
  cases hn : normalize qattr s.context with
  | error e c =>
    rw [bind_error (onContext_error hn)]
    exact .inl ⟨e, rfl⟩
  | ok attr c =>
    refine .inr ⟨attr, c, rfl, ?_⟩
    rw [bind_ok (onContext_ok hn)]
    cases hc : LocalContext.connectEndpoints (attr.portkey .writer) (attr.portkey .reader) qattr.name c with
    | error e c' => rw [bind_error (onContext_error hc), final_error, final_error]
    | ok a c' =>
      rw [bind_ok (onContext_ok hc)]
      exact maintains_place (P := (· = c')) _ rfl

end Kernels

end ProcessNetwork.Registry
