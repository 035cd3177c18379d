import ProcessNetwork.LocalContext

/-!
# The server of the remote context

The registry of kernels, nodes and endpoints that the clients in several programs share.  All objects are in one table
`datamap`, under keys from one counter, and have their kind in the member `type`; a node has one table `endpoints` for its
readers and its writers.  A handler that finds an object of another kind than it expects fails an assertion before it has
sent its reply, and `SetupKernel` sends none when the name is taken (`dispatch_request`).

An object is a record of the members that the handlers write, and a member that is missing is `none`, as is one that is
null.  `datamap[key]` puts null under a key that is not there; a null is an object without members once a member of it has
been asked for.
-/

namespace ProcessNetwork.RemoteContext

open Exceptions
open Registry (Key Stop Side)

inductive Kind
  | kernelinfo
  | nodeinfo
  | endpointinfo
deriving DecidableEq, Repr

structure Info where
  type : Option Kind := none
  key : Option Key := none
  name : Option String := none
  hostname : Option String := none
  servname : Option String := none
  client : Option String := none
  live : Option Bool := none
  started : Option Bool := none
  dead : Option Bool := none
  kernelkey : Option Key := none
  nodekey : Option Key := none
  readerkey : Option Key := none
  writerkey : Option Key := none
  qname : Option String := none
  endpoints : Option (String → Option Key) := none

def Info.start (nodeinfo : Info) : Info := { nodeinfo with started := some true }

def Info.kill (nodeinfo : Info) : Info := { nodeinfo with dead := some true }

/-- A value of the table, which is null or an object. -/
abbrev Datum := Option Info

def Datum.type (d : Datum) : Option Kind := d.bind Info.type

/-- The messages with a `msgid`. -/
inductive Request
  | setupKernel (name hostname servname : String)
  | getKernelInfo (which : String ⊕ Key)
  | createNodeKey (kernelkey : Key) (name : String)
  | getNodeInfo (which : String ⊕ Key)
  | getNumNodeLive
  /-- `GET_CREATE_READER_KEY` and `GET_CREATE_WRITER_KEY`. -/
  | getCreateEndpointKey (side : Side) (nodekey : Key) (name : String)
  /-- `GET_READER_INFO` and `GET_WRITER_INFO`. -/
  | getEndpointInfo (side : Side) (key : Key)

/-- The messages from one kernel to another. -/
inductive KernelMessage
  | createWriter
  | createReader
  | createQueue
  | createNode
deriving DecidableEq, Repr

inductive ClientMessage
  | request (msgid : UInt32) (request : Request)
  | signalKernelStart (key : Key)
  | signalKernelEnd (key : Key)
  | signalNodeStart (key : Key)
  | signalNodeEnd (key : Key)
  | connectEndpoints (writerkey readerkey : Key) (qname : String)
  | kernel (kernelkey : Key) (msg : KernelMessage)
  | terminate
  | log (msg : String)

structure Reply where
  success : Bool
  kernelinfo : Option Info := none
  nodeinfo : Option Info := none
  endpointinfo : Option Info := none
  numlivenodes : Option UInt32 := none

structure Broadcast where
  numlivenodes : UInt32
  kernelinfo : Option Info := none
  nodeinfo : Option Info := none

inductive ServerMessage
  | reply (msgid : UInt32) (reply : Reply)
  | broadcast (msg : Broadcast)
  | kernel (kernelkey : Key) (msg : KernelMessage)
  | terminate

inductive Recipient
  | client (name : String)
  | everyone
deriving DecidableEq, Repr

structure Server where
  shutdown : Bool := false
  numlivenodes : UInt32 := 0
  keycount : Key := 0
  datamap : Key → Option Datum := fun _ => none
  kernelmap : String → Option Key := fun _ => none
  nodemap : String → Option Key := fun _ => none
  /-- What `SendMessage` and `BroadcastMessage` have been given. -/
  outbox : List (Recipient × ServerMessage) := []

namespace Server

abbrev Proc := EStateM Stop Server

def sendMessage (recipient : String) (msg : ServerMessage) : Proc Unit :=
  modify fun s => { s with outbox := s.outbox ++ [(.client recipient, msg)] }

def broadcastMessage (msg : ServerMessage) : Proc Unit :=
  modify fun s => { s with outbox := s.outbox ++ [(.everyone, msg)] }

def newKey : Proc Key := do
  modify fun s => { s with keycount := s.keycount + 1 }
  return (← get).keycount

def put (key : Key) (d : Datum) (s : Server) : Server :=
  { s with datamap := Function.update s.datamap key (some d) }

/-- `datamap[key]`. -/
def datum (key : Key) : Proc Datum := do
  match (← get).datamap key with
  | some d => return d
  | none =>
    modify (put key none)
    return none

/-- `datamap[key]` with a member that is assigned. -/
def assign (key : Key) (f : Info → Info) : Proc Unit := do
  let d ← datum key
  modify (put key (some (f (d.getD {}))))

/-- The object, when it is of this kind. -/
def expect (kind : Kind) (d : Datum) : Proc Info :=
  match d with
  | some info => if info.type = some kind then return info else throw (.assertion "type")
  | none => throw (.assertion "type")

/-! ### The handlers -/

def newKernel (sender name hostname servname : String) (key : Key) : Info where
  type := some .kernelinfo
  key := some key
  name := some name
  hostname := some hostname
  servname := some servname
  live := some false
  client := some sender

def newNode (kernelkey : Key) (nodename : String) (key : Key) : Info where
  type := some .nodeinfo
  name := some nodename
  key := some key
  kernelkey := some kernelkey
  started := some false
  dead := some false
  endpoints := some fun _ => none

def newEndpoint (nodekey : Key) (kernelkey : Option Key) (name : String) (key : Key) : Info where
  type := some .endpointinfo
  key := some key
  name := some name
  nodekey := some nodekey
  kernelkey := kernelkey
  live := some true

/-- `datamap.insert`, which keeps what is there under the key. -/
def insert (key : Key) (info : Info) (s : Server) : Server :=
  if (s.datamap key).isSome then s else s.put key (some info)

def setupKernel (sender : String) (msgid : UInt32) (name hostname servname : String) : Proc Unit := do
  match (← get).kernelmap name with
  -- the reply that says so is not sent
  | some _ => return ()
  | none =>
    let kernelkey ← newKey
    let kernelinfo := newKernel sender name hostname servname kernelkey
    modify (insert kernelkey kernelinfo)
    modify fun s => { s with kernelmap := Function.update s.kernelmap name (some kernelkey) }
    sendMessage sender (.reply msgid { success := true, kernelinfo := some kernelinfo })

/-- `SignalKernelStart` and `SignalKernelEnd`. -/
def signalKernel (live : Bool) (key : Key) : Proc Unit := do
  let kernelinfo ← expect .kernelinfo (← datum key)
  let kernelinfo := { kernelinfo with live := some live }
  modify (put key (some kernelinfo))
  broadcastMessage (.broadcast { numlivenodes := (← get).numlivenodes, kernelinfo := some kernelinfo })

def getKernelInfo (sender : String) (msgid : UInt32) (kernelkey : Option Key) : Proc Unit := do
  match kernelkey.bind (← get).datamap, kernelkey with
  | some (some kernelinfo), _ =>
    throwIf (kernelinfo.type ≠ some .kernelinfo) (.assertion "type")
    sendMessage sender (.reply msgid { success := true, kernelinfo := some kernelinfo })
  | some none, some key =>
    -- the null that is asked for its type is an object from then on
    modify (put key (some {}))
    throw (.assertion "type")
  | _, _ => sendMessage sender (.reply msgid { success := false })

def createNodeKey (sender : String) (msgid : UInt32) (kernelkey : Key) (nodename : String) : Proc Unit := do
  match (← get).nodemap nodename with
  | some _ => sendMessage sender (.reply msgid { success := false })
  | none =>
    let nodekey ← newKey
    let nodeinfo := newNode kernelkey nodename nodekey
    modify fun s => { s with nodemap := Function.update s.nodemap nodename (some nodekey) }
    modify (put nodekey (some nodeinfo))
    sendMessage sender (.reply msgid { success := true, nodeinfo := some nodeinfo })

/-- The part of `SignalNodeStart` and `SignalNodeEnd` after the number of nodes has been changed. -/
def signalNode (mark : Info → Info) (key : Key) : Proc Unit := do
  let nodeinfo ← expect .nodeinfo (← datum key)
  modify (put key (some (mark nodeinfo)))
  broadcastMessage (.broadcast { numlivenodes := (← get).numlivenodes, nodeinfo := some (mark nodeinfo) })

def signalNodeStart (key : Key) : Proc Unit := do
  modify fun s => { s with numlivenodes := s.numlivenodes + 1 }
  signalNode Info.start key

def signalNodeEnd (key : Key) : Proc Unit := do
  modify fun s => { s with numlivenodes := s.numlivenodes - 1 }
  signalNode Info.kill key

def getNodeInfo (sender : String) (msgid : UInt32) (nodekey : Option Key) : Proc Unit := do
  match nodekey.bind (← get).datamap with
  | some d =>
    let nodeinfo ← expect .nodeinfo d
    sendMessage sender (.reply msgid { success := true, nodeinfo := some nodeinfo })
  | none => sendMessage sender (.reply msgid { success := false })

def getNumNodeLive (sender : String) (msgid : UInt32) : Proc Unit := do
  sendMessage sender (.reply msgid { success := true, numlivenodes := some (← get).numlivenodes })

/-- The key that the object has for an endpoint of this name. -/
def endpoint (d : Datum) (name : String) : Option Key := (d.bind Info.endpoints).bind fun endpoints => endpoints name

/-- The table with one more endpoint. -/
def withEndpoint (name : String) (epkey : Key) (info : Info) : Info :=
  { info with endpoints := some (Function.update (info.endpoints.getD fun _ => none) name (some epkey)) }

/-- `nodeinfo["endpoints"][name] = epkey`.  A null has been copied before it becomes an object, and its endpoint is lost. -/
def addEndpoint (nodekey : Key) (d : Datum) (name : String) (epkey : Key) (s : Server) : Server :=
  match d with
  | some info => s.put nodekey (some (withEndpoint name epkey info))
  | none => s

def getCreateEndpointKey (sender : String) (msgid : UInt32) (nodekey : Key) (name : String) : Proc Unit := do
  match (← get).datamap nodekey with
  | none => sendMessage sender (.reply msgid { success := false })
  | some d =>
    match endpoint d name with
    | some epkey =>
      let epinfo ← expect .endpointinfo (← datum epkey)
      sendMessage sender (.reply msgid { success := true, endpointinfo := some epinfo })
    | none =>
      let epkey ← newKey
      modify (addEndpoint nodekey d name epkey)
      let epinfo := newEndpoint nodekey (d.bind Info.kernelkey) name epkey
      modify (put epkey (some epinfo))
      sendMessage sender (.reply msgid { success := true, endpointinfo := some epinfo })

def getEndpointInfo (sender : String) (msgid : UInt32) (epkey : Key) : Proc Unit := do
  match (← get).datamap epkey with
  | some d =>
    let epinfo ← expect .endpointinfo d
    sendMessage sender (.reply msgid { success := true, endpointinfo := some epinfo })
  | none => sendMessage sender (.reply msgid { success := false })

def connectEndpoints (wkey rkey : Key) (qname : String) : Proc Unit := do
  assign wkey fun info => { info with readerkey := some rkey }
  assign rkey fun info => { info with writerkey := some wkey }
  assign rkey fun info => { info with qname := some qname }
  assign wkey fun info => { info with qname := some qname }

def routeKernelMessage (kernelkey : Key) (msg : KernelMessage) : Proc Unit := do
  let kernelinfo ← datum kernelkey
  sendMessage ((kernelinfo.bind Info.client).getD "null") (.kernel kernelkey msg)

def terminate : Proc Unit := do
  broadcastMessage .terminate
  modify fun s => { s with shutdown := true }

/-- The key that a request asks about, by its name or directly. -/
def keyOf (names : String → Option Key) : String ⊕ Key → Option Key
  | .inl name => names name
  | .inr key => some key

def handle (sender : String) (msgid : UInt32) : Request → Proc Unit
  | .setupKernel name hostname servname => setupKernel sender msgid name hostname servname
  | .getKernelInfo which => do getKernelInfo sender msgid (keyOf (← get).kernelmap which)
  | .createNodeKey kernelkey name => createNodeKey sender msgid kernelkey name
  | .getNodeInfo which => do getNodeInfo sender msgid (keyOf (← get).nodemap which)
  | .getNumNodeLive => getNumNodeLive sender msgid
  | .getCreateEndpointKey _ nodekey name => getCreateEndpointKey sender msgid nodekey name
  | .getEndpointInfo _ key => getEndpointInfo sender msgid key

def dispatchMessage (sender : String) (msg : ClientMessage) : Proc Unit := do
  if (← get).shutdown then return ()
  else match msg with
  | .request msgid request => handle sender msgid request
  | .signalKernelStart key => signalKernel true key
  | .signalKernelEnd key => signalKernel false key
  | .signalNodeStart key => signalNodeStart key
  | .signalNodeEnd key => signalNodeEnd key
  | .connectEndpoints writerkey readerkey qname => connectEndpoints writerkey readerkey qname
  | .kernel kernelkey msg => routeKernelMessage kernelkey msg
  | .terminate => terminate
  | .log _ => return ()

/-! ### What the handlers do -/

section Handlers

variable {s : Server} {sender name : String} {msgid : UInt32} {key : Key} {info : Info} {d : Datum} {kind : Kind}

def sent (recipient : Recipient) (msg : ServerMessage) (s : Server) : Server :=
  { s with outbox := s.outbox ++ [(recipient, msg)] }

def replied (sender : String) (msgid : UInt32) (reply : Reply) : Server → Server :=
  sent (.client sender) (.reply msgid reply)

/-- The kind of the object under the key, when there is one. -/
def kindAt (s : Server) (key : Key) : Option Kind := (s.datamap key).bind Datum.type

theorem put_datamap (s : Server) (key : Key) (d : Datum) (k : Key) :
    (s.put key d).datamap k = if k = key then some d else s.datamap k := by
  by_cases hk : k = key <;> simp [put, hk]

theorem put_kindAt (s : Server) (key : Key) (d : Datum) (k : Key) :
    (s.put key d).kindAt k = if k = key then d.type else s.kindAt k := by
  rw [kindAt, put_datamap]
  split_ifs
  · rfl
  · rfl

theorem kindAt_eq : s.kindAt key = some kind ↔ ∃ info, s.datamap key = some (some info) ∧ info.type = some kind := by
  constructor
  · intro h
    obtain ⟨d, hd, htype⟩ := Option.bind_eq_some_iff.1 h
    obtain ⟨info, rfl, htype⟩ := Option.bind_eq_some_iff.1 htype
    exact ⟨info, hd, htype⟩
  · rintro ⟨info, hd, htype⟩
    rw [kindAt, hd]
    exact htype

private theorem datum_run (h : s.datamap key = some d) : datum key s = .ok d s := by
  unfold datum
  rw [bind_ok get_run, h]
  rfl

private theorem datum_none (h : s.datamap key = none) : datum key s = .ok none (s.put key none) := by
  unfold datum
  rw [bind_ok get_run, h]
  rfl

private theorem expect_run (h : info.type = some kind) : expect kind (some info) s = .ok info s := by
  rw [expect, if_pos h]
  rfl

private theorem expect_error (h : Datum.type d ≠ some kind) : expect kind d s = .error (.assertion "type") s := by
  cases d with
  | none => rfl
  | some info =>
    have hne : info.type ≠ some kind := h
    rw [expect, if_neg hne]
    rfl

/-- The table after `datamap[key]`. -/
def filled (key : Key) (s : Server) : Server := if (s.datamap key).isSome then s else s.put key none

theorem datum_eq (key : Key) (s : Server) : datum key s = .ok ((s.datamap key).getD none) (s.filled key) := by
  cases h : s.datamap key with
  | none =>
    rw [datum_none h, filled, h]
    rfl
  | some d =>
    rw [datum_run h, filled, h]
    rfl

/-! Kernels. -/

theorem setupKernel_taken {hostname servname : String} (h : (s.kernelmap name).isSome) :
    setupKernel sender msgid name hostname servname s = .ok () s := by
  obtain ⟨k, hk⟩ := Option.isSome_iff_exists.1 h
  unfold setupKernel
  rw [bind_ok get_run, hk]
  rfl

/-- The registry with a new kernel. -/
def withKernel (sender name hostname servname : String) (s : Server) : Server :=
  let key := s.keycount + 1
  let s := insert key (newKernel sender name hostname servname key) { s with keycount := key }
  { s with kernelmap := Function.update s.kernelmap name (some key) }

theorem setupKernel_run {hostname servname : String} (h : s.kernelmap name = none) :
    setupKernel sender msgid name hostname servname s = .ok () (replied sender msgid
      { success := true, kernelinfo := some (newKernel sender name hostname servname (s.keycount + 1)) }
      (s.withKernel sender name hostname servname)) := by
  unfold setupKernel
  rw [bind_ok get_run, h]
  rfl

/-- The notice of a kernel or a node. -/
def announced (kernelinfo nodeinfo : Option Info) (s : Server) : Server :=
  sent .everyone (.broadcast { numlivenodes := s.numlivenodes, kernelinfo := kernelinfo, nodeinfo := nodeinfo }) s

theorem signalKernel_run {live : Bool} (h : s.datamap key = some (some info)) (htype : info.type = some .kernelinfo) :
    signalKernel live key s = .ok () (announced (some { info with live := some live }) none
      (s.put key (some { info with live := some live }))) := by
  unfold signalKernel
  rw [bind_ok (datum_run h), bind_ok (expect_run htype)]
  rfl

theorem signalKernel_error {live : Bool} (h : s.kindAt key ≠ some .kernelinfo) :
    signalKernel live key s = .error (.assertion "type") (s.filled key) := by
  unfold signalKernel
  rw [bind_ok (datum_eq key s)]
  refine bind_error (expect_error ?_)
  unfold kindAt at h
  cases hd : s.datamap key with
  | none => exact fun h => by cases h
  | some d =>
    rw [hd] at h
    exact h

theorem getKernelInfo_run (h : s.datamap key = some (some info)) (htype : info.type = some .kernelinfo) :
    getKernelInfo sender msgid (some key) s =
      .ok () (replied sender msgid { success := true, kernelinfo := some info } s) := by
  unfold getKernelInfo
  rw [bind_ok get_run, Option.bind_some, h]
  exact bind_ok (throwIf_neg (not_not.2 htype))

theorem getKernelInfo_none {kernelkey : Option Key} (h : kernelkey.bind s.datamap = none) :
    getKernelInfo sender msgid kernelkey s = .ok () (replied sender msgid { success := false } s) := by
  unfold getKernelInfo
  rw [bind_ok get_run, h]
  rfl

/-- The table after the type of what is under the key has been asked for. -/
def asked (key : Key) (s : Server) : Server :=
  match s.datamap key with
  | some none => s.put key (some {})
  | _ => s

theorem getKernelInfo_error (h : (s.datamap key).isSome) (hkind : s.kindAt key ≠ some .kernelinfo) :
    getKernelInfo sender msgid (some key) s = .error (.assertion "type") (s.asked key) := by
  unfold getKernelInfo asked
  rw [bind_ok get_run, Option.bind_some]
  unfold kindAt at hkind
  cases hd : s.datamap key with
  | none =>
    rw [hd] at h
    cases h
  | some d =>
    rw [hd] at hkind
    cases d with
    | none => exact bind_ok (modify_run _)
    | some info =>
      have hne : info.type ≠ some .kernelinfo := hkind
      exact bind_error (throwIf_pos hne)

/-! Nodes. -/

/-- The registry with a new node. -/
def withNode (kernelkey : Key) (nodename : String) (s : Server) : Server :=
  let key := s.keycount + 1
  put key (some (newNode kernelkey nodename key))
    { s with keycount := key, nodemap := Function.update s.nodemap nodename (some key) }

theorem createNodeKey_taken {kernelkey : Key} (h : (s.nodemap name).isSome) :
    createNodeKey sender msgid kernelkey name s = .ok () (replied sender msgid { success := false } s) := by
  obtain ⟨k, hk⟩ := Option.isSome_iff_exists.1 h
  unfold createNodeKey
  rw [bind_ok get_run, hk]
  rfl

theorem createNodeKey_run {kernelkey : Key} (h : s.nodemap name = none) :
    createNodeKey sender msgid kernelkey name s = .ok () (replied sender msgid
      { success := true, nodeinfo := some (newNode kernelkey name (s.keycount + 1)) } (s.withNode kernelkey name)) := by
  unfold createNodeKey
  rw [bind_ok get_run, h]
  rfl

theorem signalNode_run {mark : Info → Info} (h : s.datamap key = some (some info)) (htype : info.type = some .nodeinfo) :
    signalNode mark key s = .ok () (announced none (some (mark info)) (s.put key (some (mark info)))) := by
  unfold signalNode
  rw [bind_ok (datum_run h), bind_ok (expect_run htype)]
  rfl

theorem signalNode_error {mark : Info → Info} (h : s.kindAt key ≠ some .nodeinfo) :
    signalNode mark key s = .error (.assertion "type") (s.filled key) := by
  unfold signalNode
  rw [bind_ok (datum_eq key s)]
  refine bind_error (expect_error ?_)
  unfold kindAt at h
  cases hd : s.datamap key with
  | none => exact fun h => by cases h
  | some d =>
    rw [hd] at h
    exact h

theorem getNodeInfo_run (h : s.datamap key = some (some info)) (htype : info.type = some .nodeinfo) :
    getNodeInfo sender msgid (some key) s = .ok () (replied sender msgid { success := true, nodeinfo := some info } s) := by
  unfold getNodeInfo
  rw [bind_ok get_run, Option.bind_some, h]
  exact bind_ok (expect_run htype)

theorem getNodeInfo_none {nodekey : Option Key} (h : nodekey.bind s.datamap = none) :
    getNodeInfo sender msgid nodekey s = .ok () (replied sender msgid { success := false } s) := by
  unfold getNodeInfo
  rw [bind_ok get_run, h]
  rfl

theorem getNodeInfo_error (h : (s.datamap key).isSome) (hkind : s.kindAt key ≠ some .nodeinfo) :
    getNodeInfo sender msgid (some key) s = .error (.assertion "type") s := by
  obtain ⟨d, hd⟩ := Option.isSome_iff_exists.1 h
  unfold getNodeInfo
  rw [bind_ok get_run, Option.bind_some, hd]
  rw [kindAt, hd] at hkind
  exact bind_error (expect_error hkind)

/-! Endpoints. -/

theorem getCreateEndpointKey_none (h : s.datamap key = none) :
    getCreateEndpointKey sender msgid key name s = .ok () (replied sender msgid { success := false } s) := by
  unfold getCreateEndpointKey
  rw [bind_ok get_run, h]
  rfl

theorem getCreateEndpointKey_run {epkey : Key} (h : s.datamap key = some d) (hep : endpoint d name = some epkey)
    (hinfo : s.datamap epkey = some (some info)) (htype : info.type = some .endpointinfo) :
    getCreateEndpointKey sender msgid key name s = .ok ()
      (replied sender msgid { success := true, endpointinfo := some info } s) := by
  unfold getCreateEndpointKey
  rw [bind_ok get_run, h]
  dsimp only
  rw [hep]
  dsimp only
  rw [bind_ok (datum_run hinfo), bind_ok (expect_run htype)]
  rfl

/-- The registry with a new endpoint. -/
def withEndpointAt (nodekey : Key) (d : Datum) (name : String) (s : Server) : Server :=
  let key := s.keycount + 1
  put key (some (newEndpoint nodekey (d.bind Info.kernelkey) name key))
    (addEndpoint nodekey d name key { s with keycount := key })

theorem getCreateEndpointKey_new (h : s.datamap key = some d) (hep : endpoint d name = none) :
    getCreateEndpointKey sender msgid key name s = .ok () (replied sender msgid
      { success := true, endpointinfo := some (newEndpoint key (d.bind Info.kernelkey) name (s.keycount + 1)) }
      (s.withEndpointAt key d name)) := by
  unfold getCreateEndpointKey
  rw [bind_ok get_run, h]
  dsimp only
  rw [hep]
  rfl

theorem getEndpointInfo_run (h : s.datamap key = some (some info)) (htype : info.type = some .endpointinfo) :
    getEndpointInfo sender msgid key s = .ok () (replied sender msgid { success := true, endpointinfo := some info } s) := by
  unfold getEndpointInfo
  rw [bind_ok get_run, h]
  exact bind_ok (expect_run htype)

theorem getEndpointInfo_none (h : s.datamap key = none) :
    getEndpointInfo sender msgid key s = .ok () (replied sender msgid { success := false } s) := by
  unfold getEndpointInfo
  rw [bind_ok get_run, h]
  rfl

theorem getEndpointInfo_error (h : (s.datamap key).isSome) (hkind : s.kindAt key ≠ some .endpointinfo) :
    getEndpointInfo sender msgid key s = .error (.assertion "type") s := by
  obtain ⟨d, hd⟩ := Option.isSome_iff_exists.1 h
  unfold getEndpointInfo
  rw [bind_ok get_run, hd]
  rw [kindAt, hd] at hkind
  exact bind_error (expect_error hkind)

/-- `datamap[key]` after a member has been assigned. -/
def assigned (key : Key) (f : Info → Info) (s : Server) : Server :=
  s.put key (some (f (((s.datamap key).getD none).getD {})))

private theorem assign_run (f : Info → Info) : assign key f s = .ok () (s.assigned key f) := by
  unfold assign
  rw [bind_ok (datum_eq key s), modify_run]
  refine congrArg (EStateM.Result.ok ()) ?_
  unfold assigned filled
  split_ifs with h
  · rfl
  · simp [put]

/-- The registry with two endpoints connected. -/
def withConnection (wkey rkey : Key) (qname : String) (s : Server) : Server :=
  assigned wkey (fun info => { info with qname := some qname }) <|
    assigned rkey (fun info => { info with qname := some qname }) <|
      assigned rkey (fun info => { info with writerkey := some wkey }) <|
        assigned wkey (fun info => { info with readerkey := some rkey }) s

theorem connectEndpoints_run {wkey rkey : Key} {qname : String} :
    connectEndpoints wkey rkey qname s = .ok () (s.withConnection wkey rkey qname) := by
  unfold connectEndpoints
  rw [bind_ok (assign_run _), bind_ok (assign_run _), bind_ok (assign_run _), assign_run]
  rfl

end Handlers

end Server

end ProcessNetwork.RemoteContext
