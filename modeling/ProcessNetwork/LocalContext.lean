import ProcessNetwork.Lib.Exceptions

/-!
# The local context

The registry of kernels, nodes and ports that all kernels of one program share.  Every object has a key from one counter.
The reader ports and the writer ports are two tables, and a node has one list of names for each of them; `Side` says which
is meant, so that `GetReaderNode` and `GetWriterNode` are one function at two arguments.
-/

namespace ProcessNetwork.Registry

open Exceptions

abbrev Key := Nat

/-- How a call ends other than by returning. -/
inductive Stop
  | invalidArgument (what : String)
  | assertion (what : String)
  | shutdown
  /-- The call waits for another thread. -/
  | waits
  /-- A null pointer is followed. -/
  | undefined
deriving DecidableEq, Repr

inductive Side
  | reader
  | writer
deriving DecidableEq, Repr

namespace Side

def other : Side → Side
  | reader => writer
  | writer => reader

@[simp] theorem other_other (side : Side) : side.other.other = side := by
  cases side <;> rfl

@[simp] theorem other_ne (side : Side) : side.other ≠ side := by
  cases side <;> decide

@[simp] theorem ne_other (side : Side) : side ≠ side.other := side.other_ne.symm

end Side

structure KernelInfo where
  name : String
  hostname : String := ""
  servname : String := ""
  live : Bool := false
  dead : Bool := false
  allowremote : Bool

structure NodeInfo where
  name : String
  kernelkey : Key
  started : Bool := false
  dead : Bool := false
  /-- `readers` and `writers`: the keys of the ports by their names. -/
  ports : Side → String → Option Key := fun _ _ => none

structure PortInfo where
  name : String
  qname : String := ""
  nodekey : Key
  opposingport : Key := 0
  dead : Bool := false

structure LocalContext where
  kernelnames : String → Option Key := fun _ => none
  nodenames : String → Option Key := fun _ => none
  kernelmap : Key → Option KernelInfo := fun _ => none
  nodemap : Key → Option NodeInfo := fun _ => none
  /-- `readports` and `writeports`. -/
  ports : Side → Key → Option PortInfo := fun _ _ => none
  numlivenodes : UInt32 := 0
  shutdown : Bool := false
  counter : Key := 0

namespace LocalContext

abbrev Proc := EStateM Stop LocalContext

def internalCheckTerminated : Proc Unit := do
  throwIf (← get).shutdown .shutdown

/-- The value that a table gives, or the exception of the caller. -/
def lookup {α : Type} (entry : LocalContext → Option α) (what : String) : Proc α := do
  match entry (← get) with
  | some a => pure a
  | none => throw (.invalidArgument what)

def newKey : Proc Key := do
  modify fun c => { c with counter := c.counter + 1 }
  return (← get).counter

def setPort (side : Side) (key : Key) (port : PortInfo) (c : LocalContext) : LocalContext :=
  { c with ports := Function.update c.ports side (Function.update (c.ports side) key (some port)) }

def setNode (key : Key) (node : NodeInfo) (c : LocalContext) : LocalContext :=
  { c with nodemap := Function.update c.nodemap key (some node) }

def setKernel (key : Key) (kernel : KernelInfo) (c : LocalContext) : LocalContext :=
  { c with kernelmap := Function.update c.kernelmap key (some kernel) }

/-! ### Kernels -/

def setup (kernel : KernelInfo) : Proc Key := do
  internalCheckTerminated
  throwIf ((← get).kernelnames kernel.name).isSome (.invalidArgument "Cannot create two kernels with the same name")
  let key ← newKey
  modify (setKernel key kernel)
  modify fun c => { c with kernelnames := Function.update c.kernelnames kernel.name (some key) }
  return key

/-- `SetupKernel` for a kernel that other kernels can connect to. -/
def setupKernel (name hostname servname : String) : Proc Key :=
  setup { name := name, hostname := hostname, servname := servname, allowremote := true }

/-- `SetupKernel` for a kernel without remote operations. -/
def setupLocalKernel (name : String) : Proc Key := setup { name := name, allowremote := false }

def getKernelKey (kernel : String) : Proc Key := do
  internalCheckTerminated
  lookup (fun c => c.kernelnames kernel) "No such kernel"

def getKernelName (kernelkey : Key) : Proc String := do
  internalCheckTerminated
  return (← lookup (fun c => c.kernelmap kernelkey) "No such kernel").name

/-! ### Nodes -/

def createNodeKey (kernelkey : Key) (nodename : String) : Proc Key := do
  internalCheckTerminated
  match (← get).nodenames nodename with
  | none =>
    let key ← newKey
    modify fun c => { c with nodenames := Function.update c.nodenames nodename (some key) }
    modify (setNode key { name := nodename, kernelkey := kernelkey })
    return key
  | some _ => throw (.invalidArgument ("Node " ++ nodename ++ " already exists."))

def getNodeKey (nodename : String) : Proc Key := do
  internalCheckTerminated
  lookup (fun c => c.nodenames nodename) "No such node"

/-- `GetNodeName` does not ask whether the context has been terminated. -/
def getNodeName (nodekey : Key) : Proc String := do
  return (← lookup (fun c => c.nodemap nodekey) "No such node").name

def signalNodeStart (nodekey : Key) : Proc Unit := do
  internalCheckTerminated
  let node ← lookup (fun c => c.nodemap nodekey) "No such node"
  modify (setNode nodekey { node with started := true })
  modify fun c => { c with numlivenodes := c.numlivenodes + 1 }

def signalNodeEnd (nodekey : Key) : Proc Unit := do
  let node ← lookup (fun c => c.nodemap nodekey) "No such node"
  modify (setNode nodekey { node with dead := true })
  modify fun c => { c with numlivenodes := c.numlivenodes - 1 }

/-- The node by this name, when it has been started. -/
def startedNode (c : LocalContext) (nodename : String) : Option Key :=
  (c.nodenames nodename).filter fun key => (c.nodemap key).any NodeInfo.started

def waitForNodeStart (nodename : String) : Proc Key := do
  internalCheckTerminated
  match (← get).startedNode nodename with
  | some key => pure key
  | none => throw .waits

def getNodeKernel (nodekey : Key) : Proc Key := do
  internalCheckTerminated
  return (← lookup (fun c => c.nodemap nodekey) "No such node").kernelkey

/-! ### Ports -/

def getCreatePortKey (side : Side) (nodekey : Key) (portname : String) : Proc Key := do
  internalCheckTerminated
  let node ← lookup (fun c => c.nodemap nodekey) "No such node"
  match node.ports side portname with
  | none =>
    let key ← newKey
    modify (setNode nodekey
      { node with ports := Function.update node.ports side (Function.update (node.ports side) portname (some key)) })
    modify (setPort side key { name := portname, nodekey := nodekey })
    return key
  | some key => return key

def getPortNode (side : Side) (portkey : Key) : Proc Key := do
  internalCheckTerminated
  return (← lookup (fun c => c.ports side portkey) "No such port").nodekey

def getPortKernel (side : Side) (portkey : Key) : Proc Key := do
  getNodeKernel (← getPortNode side portkey)

def getPortName (side : Side) (portkey : Key) : Proc String := do
  internalCheckTerminated
  return (← lookup (fun c => c.ports side portkey) "No such port").name

def getOpposingPort (side : Side) (what : String) (portkey : Key) : Proc Key := do
  internalCheckTerminated
  return (← lookup (fun c => c.ports side portkey) what).opposingport

def getCreateReaderKey : Key → String → Proc Key := getCreatePortKey .reader
def getReaderNode : Key → Proc Key := getPortNode .reader
def getReaderKernel : Key → Proc Key := getPortKernel .reader
def getReaderName : Key → Proc String := getPortName .reader

def getCreateWriterKey : Key → String → Proc Key := getCreatePortKey .writer
def getWriterNode : Key → Proc Key := getPortNode .writer
def getWriterKernel : Key → Proc Key := getPortKernel .writer
def getWriterName : Key → Proc String := getPortName .writer

def connectEndpoints (writerkey readerkey : Key) (qname : String) : Proc Unit := do
  internalCheckTerminated
  let writer ← lookup (fun c => c.ports .writer writerkey) "Write port does not exist."
  let reader ← lookup (fun c => c.ports .reader readerkey) "Read port does not exist."
  modify (setPort .writer writerkey { writer with opposingport := readerkey, qname := qname })
  modify (setPort .reader readerkey { reader with opposingport := writerkey, qname := qname })

def getReadersWriter : Key → Proc Key := getOpposingPort .reader "Read port does not exist."
def getWritersReader : Key → Proc Key := getOpposingPort .writer "Write port does not exist."

def terminate : Proc Unit := modify fun c => { c with shutdown := true }

/-! ### What the calls do to the tables -/

variable {c : LocalContext} {side side' : Side} {k k' : Key}

theorem setPort_ports (port : PortInfo) :
    (c.setPort side k port).ports side' k' = if side' = side ∧ k' = k then some port else c.ports side' k' := by
  by_cases hside : side' = side
  · subst hside
    by_cases hk : k' = k <;> simp [setPort, hk]
  · simp [setPort, hside]

@[simp] theorem setPort_nodemap (port : PortInfo) : (c.setPort side k port).nodemap = c.nodemap := rfl

@[simp] theorem setPort_counter (port : PortInfo) : (c.setPort side k port).counter = c.counter := rfl

@[simp] theorem setPort_shutdown (port : PortInfo) : (c.setPort side k port).shutdown = c.shutdown := rfl

@[simp] theorem setNode_ports (node : NodeInfo) : (c.setNode k node).ports = c.ports := rfl

@[simp] theorem setNode_counter (node : NodeInfo) : (c.setNode k node).counter = c.counter := rfl

@[simp] theorem setNode_shutdown (node : NodeInfo) : (c.setNode k node).shutdown = c.shutdown := rfl

theorem setNode_nodemap (node : NodeInfo) :
    (c.setNode k node).nodemap k' = if k' = k then some node else c.nodemap k' := by
  by_cases hk : k' = k <;> simp [setNode, hk]

theorem internalCheckTerminated_run (h : c.shutdown = false) : internalCheckTerminated c = .ok () c := by
  unfold internalCheckTerminated
  rw [bind_ok get_run, throwIf_neg (by simp [h])]

theorem lookup_run {α : Type} {entry : LocalContext → Option α} {what : String} {a : α} (h : entry c = some a) :
    lookup entry what c = .ok a c := by
  unfold lookup
  rw [bind_ok get_run, h]
  rfl

theorem lookup_none {α : Type} {entry : LocalContext → Option α} {what : String} (h : entry c = none) :
    lookup entry what c = .error (.invalidArgument what) c := by
  unfold lookup
  rw [bind_ok get_run, h]
  rfl

theorem getNodeKernel_run {node : NodeInfo} (h : c.shutdown = false) (hk : c.nodemap k = some node) :
    getNodeKernel k c = .ok node.kernelkey c := by
  unfold getNodeKernel
  rw [bind_ok (internalCheckTerminated_run h), bind_ok (lookup_run hk)]
  rfl

theorem getCreatePortKey_run {node : NodeInfo} {portname : String} {key : Key} (h : c.shutdown = false)
    (hk : c.nodemap k = some node) (hp : node.ports side portname = some key) :
    getCreatePortKey side k portname c = .ok key c := by
  unfold getCreatePortKey
  rw [bind_ok (internalCheckTerminated_run h), bind_ok (lookup_run hk), hp]
  rfl

private theorem getCreatePortKey_new {node : NodeInfo} {portname : String} (h : c.shutdown = false)
    (hk : c.nodemap k = some node) (hp : node.ports side portname = none) :
    ∃ node', getCreatePortKey side k portname c = .ok (c.counter + 1)
      (setPort side (c.counter + 1) { name := portname, nodekey := k }
        (setNode k node' { c with counter := c.counter + 1 })) ∧ node'.kernelkey = node.kernelkey := by
  unfold getCreatePortKey
  rw [bind_ok (internalCheckTerminated_run h), bind_ok (lookup_run hk), hp]
  exact ⟨_, rfl, rfl⟩

theorem connectEndpoints_run {writerkey readerkey : Key} (qname : String) {writer reader : PortInfo}
    (h : c.shutdown = false) (hw : c.ports .writer writerkey = some writer) (hr : c.ports .reader readerkey = some reader) :
    connectEndpoints writerkey readerkey qname c = .ok ()
      (setPort .reader readerkey { reader with opposingport := writerkey, qname := qname }
        (setPort .writer writerkey { writer with opposingport := readerkey, qname := qname } c)) := by
  unfold connectEndpoints
  rw [bind_ok (internalCheckTerminated_run h), bind_ok (lookup_run hw), bind_ok (lookup_run hr)]
  rfl

theorem getOpposingPort_run {what : String} {port : PortInfo} (h : c.shutdown = false)
    (hk : c.ports side k = some port) : getOpposingPort side what k c = .ok port.opposingport c := by
  unfold getOpposingPort
  rw [bind_ok (internalCheckTerminated_run h), bind_ok (lookup_run hk)]
  rfl

/-! ### Calls that only add to the registry -/

/-- Every port has a key that the counter has given out. -/
def Fresh (c : LocalContext) : Prop := ∀ side k, (c.ports side k).isSome → 0 < k ∧ k ≤ c.counter

/-- The second registry has all ports of the first as they are, and others that are not connected. -/
structure Extends (c c' : LocalContext) : Prop where
  counter : c.counter ≤ c'.counter
  ports : ∀ side k, c'.ports side k = c.ports side k ∨
    c.counter < k ∧ k ≤ c'.counter ∧ ∃ port, c'.ports side k = some port ∧ port.opposingport = 0

theorem Extends.refl (c : LocalContext) : Extends c c := ⟨le_refl _, fun _ _ => .inl rfl⟩

theorem Extends.fresh {c' : LocalContext} (h : Extends c c') (hc : Fresh c) : Fresh c' := by
  intro side k hk
  rcases h.ports side k with heq | ⟨hlt, hle, -⟩
  · rw [heq] at hk
    exact ⟨(hc side k hk).1, (hc side k hk).2.trans h.counter⟩
  · exact ⟨Nat.zero_lt_of_lt hlt, hle⟩

private theorem Extends.step {c₀ c' : LocalContext} (h : Extends c₀ c) (hcounter : c.counter ≤ c'.counter)
    (hports : c'.ports = c.ports) : Extends c₀ c' where
  counter := h.counter.trans hcounter
  ports side k := by
    rw [hports]
    exact (h.ports side k).imp_right fun ⟨h1, h2, h3⟩ => ⟨h1, h2.trans hcounter, h3⟩

/-- Every node is on the kernel that it was on. -/
structure SameKernels (c c' : LocalContext) : Prop where
  nodemap : ∀ k, (c'.nodemap k).map NodeInfo.kernelkey = (c.nodemap k).map NodeInfo.kernelkey
  kernelmap : c'.kernelmap = c.kernelmap
  shutdown : c'.shutdown = c.shutdown

theorem SameKernels.refl (c : LocalContext) : SameKernels c c := ⟨fun _ => rfl, rfl, rfl⟩

variable {I : LocalContext → Prop} {c₀ : LocalContext}

theorem maintains_internalCheckTerminated : Maintains I internalCheckTerminated :=
  Maintains.get.bind fun _ => .throwIf _ _

theorem maintains_lookup {α : Type} (entry : LocalContext → Option α) (what : String) :
    Maintains I (lookup entry what) := by
  refine Maintains.get.bind fun c => ?_
  cases entry c with
  | some a => exact .pure a
  | none => exact .throw _

theorem maintains_getPortNode (side : Side) (k : Key) : Maintains I (getPortNode side k) :=
  maintains_internalCheckTerminated.bind fun _ => (maintains_lookup _ _).bind fun _ => .pure _

theorem maintains_waitForNodeStart (nodename : String) : Maintains I (waitForNodeStart nodename) := by
  refine maintains_internalCheckTerminated.bind fun _ => Maintains.get.bind fun c => ?_
  cases c.startedNode nodename with
  | some key => exact .pure key
  | none => exact .throw _

/-- `GetCreateReaderKey` and `GetCreateWriterKey` leave the registry as it is, or add one port. -/
theorem getCreatePortKey_cases (c : LocalContext) (side : Side) (k : Key) (portname : String) :
    final (getCreatePortKey side k portname c) = c ∨ ∃ node node', c.nodemap k = some node ∧
      node'.kernelkey = node.kernelkey ∧ final (getCreatePortKey side k portname c) =
        setPort side (c.counter + 1) { name := portname, nodekey := k }
          (setNode k node' { c with counter := c.counter + 1 }) := by
  rcases Bool.eq_false_or_eq_true c.shutdown with hs | hs
  · have hrun : getCreatePortKey side k portname c = .error .shutdown c := by
      unfold getCreatePortKey
      refine bind_error ?_
      unfold internalCheckTerminated
      rw [bind_ok get_run, throwIf_pos hs]
    exact .inl (congrArg final hrun)
  · cases hk : c.nodemap k with
    | none =>
      have hrun : getCreatePortKey side k portname c = .error (.invalidArgument "No such node") c := by
        unfold getCreatePortKey
        rw [bind_ok (internalCheckTerminated_run hs), bind_error (lookup_none hk)]
      exact .inl (congrArg final hrun)
    | some node =>
      cases hp : node.ports side portname with
      | some key => exact .inl (congrArg final (getCreatePortKey_run hs hk hp))
      | none =>
        obtain ⟨node', hrun, hkey⟩ := getCreatePortKey_new hs hk hp
        exact .inr ⟨node, node', rfl, hkey, congrArg final hrun⟩

theorem extends_getCreatePortKey (side : Side) (k : Key) (portname : String) :
    Maintains (Extends c₀) (getCreatePortKey side k portname) := by
  intro c hc
  rcases getCreatePortKey_cases c side k portname with heq | ⟨node, node', -, -, heq⟩ <;> rw [heq]
  · exact hc
  · refine ⟨hc.counter.trans (Nat.le_succ _), fun side' k' => ?_⟩
    rw [setPort_ports]
    split_ifs with heq
    · exact .inr ⟨heq.2 ▸ Nat.lt_succ_of_le hc.counter, heq.2 ▸ le_refl _, _, rfl, rfl⟩
    · exact (hc.ports side' k').imp_right fun ⟨h1, h2, h3⟩ => ⟨h1, Nat.le_succ_of_le h2, h3⟩

theorem sameKernels_getCreatePortKey (side : Side) (k : Key) (portname : String) :
    Maintains (SameKernels c₀) (getCreatePortKey side k portname) := by
  intro c hc
  rcases getCreatePortKey_cases c side k portname with heq | ⟨node, node', hnode, hkey, heq⟩ <;> rw [heq]
  · exact hc
  · refine ⟨fun k' => ?_, hc.kernelmap, hc.shutdown⟩
    rw [setPort_nodemap, setNode_nodemap, ← hc.nodemap k']
    split_ifs with hk
    · rw [hk, hnode]
      exact congrArg some hkey
    · rfl

private theorem extends_newKey : Maintains (Extends c₀) newKey := fun _ hc => hc.step (Nat.le_succ _) rfl

theorem extends_setup (kernel : KernelInfo) : Maintains (Extends c₀) (setup kernel) := by
  refine maintains_internalCheckTerminated.bind fun _ => Maintains.get.bind fun _ =>
    Maintains.bind (.throwIf _ _) fun _ => extends_newKey.bind fun _ => ?_
  exact Maintains.bind (.modify fun _ hc => hc.step (le_refl _) rfl) fun _ =>
    Maintains.bind (.modify fun _ hc => hc.step (le_refl _) rfl) fun _ => .pure _

theorem extends_createNodeKey (kernelkey : Key) (nodename : String) :
    Maintains (Extends c₀) (createNodeKey kernelkey nodename) := by
  refine maintains_internalCheckTerminated.bind fun _ => Maintains.get.bind fun _ => ?_
  split
  · exact extends_newKey.bind fun _ => Maintains.bind (.modify fun _ hc => hc.step (le_refl _) rfl) fun _ =>
      Maintains.bind (.modify fun _ hc => hc.step (le_refl _) rfl) fun _ => .pure _
  · exact .throw _

theorem extends_signalNodeStart (k : Key) : Maintains (Extends c₀) (signalNodeStart k) :=
  maintains_internalCheckTerminated.bind fun _ => (maintains_lookup _ _).bind fun _ =>
    Maintains.bind (.modify fun _ hc => hc.step (le_refl _) rfl) fun _ => .modify fun _ hc => hc.step (le_refl _) rfl

theorem extends_signalNodeEnd (k : Key) : Maintains (Extends c₀) (signalNodeEnd k) :=
  (maintains_lookup _ _).bind fun _ =>
    Maintains.bind (.modify fun _ hc => hc.step (le_refl _) rfl) fun _ => .modify fun _ hc => hc.step (le_refl _) rfl

theorem extends_terminate : Maintains (Extends c₀) terminate := .modify fun _ hc => hc.step (le_refl _) rfl

/-- `ConnectEndpoints` throws before it changes anything, or finds both ports. -/
theorem connectEndpoints_cases (c : LocalContext) (writerkey readerkey : Key) (qname : String) :
    (∃ e, connectEndpoints writerkey readerkey qname c = .error e c) ∨ c.shutdown = false ∧
      (∃ writer, c.ports .writer writerkey = some writer) ∧ ∃ reader, c.ports .reader readerkey = some reader := by
  unfold connectEndpoints
  cases hs : c.shutdown with
  | true =>
    refine .inl ⟨.shutdown, bind_error ?_⟩
    unfold internalCheckTerminated
    rw [bind_ok get_run, throwIf_pos hs]
  | false =>
    cases hw : c.ports .writer writerkey with
    | none => exact .inl ⟨_, by rw [bind_ok (internalCheckTerminated_run hs), bind_error (lookup_none hw)]⟩
    | some writer =>
      cases hr : c.ports .reader readerkey with
      | none =>
        exact .inl ⟨_, by
          rw [bind_ok (internalCheckTerminated_run hs), bind_ok (lookup_run hw), bind_error (lookup_none hr)]⟩
      | some reader => exact .inr ⟨rfl, ⟨writer, rfl⟩, reader, rfl⟩

end LocalContext

end ProcessNetwork.Registry
