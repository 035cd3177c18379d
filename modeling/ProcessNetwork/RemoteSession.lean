import ProcessNetwork.Directory
import ProcessNetwork.RemoteContext

/-!
# A client and its server

A client that makes one call at a time, with its server.  What it sends stays in its order, and the server dispatches it at
any time before the reply of a later call, which makes no difference (`drained_serve`).  The table of the server shows a
directory, in which the readers and the writers of a node share their names (`Shows`).
-/

namespace ProcessNetwork.RemoteContext

open Exceptions
open Registry (Key Stop Side Call Answer Gives LocalContext Directory ShownBy)

/-! ### The client -/

/-- A `RemoteContextClient`, the channels and the server. -/
structure Session where
  name : String := ""
  shutdown : Bool := false
  trancounter : UInt32 := 0
  toServer : List ClientMessage := []
  toClient : List ServerMessage := []
  server : Server := {}

/-- The member as a number, with 0 for null. -/
def number (info : Option Info) (member : Info → Option Key) : Key := (info.bind member).getD 0

/-- The member as a string. -/
def text (info : Option Info) (member : Info → Option String) : String := (info.bind member).getD "null"

def ServerMessage.replyTo (msgid : UInt32) : ServerMessage → Option Reply
  | .reply id r => if id = msgid then some r else none
  | _ => none

namespace Session

abbrev Proc := EStateM Stop Session

/-- The server dispatches the first message that it has not dispatched yet. -/
def serve (s : Session) : Session :=
  match s.toServer with
  | [] => s
  | msg :: rest =>
    let t := final (s.server.dispatchMessage s.name msg)
    { s with
      server := { t with outbox := [] }
      toServer := rest
      toClient := s.toClient ++ t.outbox.filterMap (Network.mail s.name) }

/-- The server has dispatched everything. -/
def drained (s : Session) : Session := serve^[s.toServer.length] s

def post (msg : ClientMessage) (s : Session) : Session := { s with toServer := s.toServer ++ [msg] }

/-- The next number of a call. -/
def count (s : Session) : Session := { s with trancounter := s.trancounter + 1 }

def internalCheckTerminated : Proc Unit := do
  throwIf (← get).shutdown .shutdown

def sendMessage (msg : ClientMessage) : Proc Unit := modify (post msg)

/-- The wait for a reply, which does not end when there is none. -/
def await (msgid : UInt32) : Proc Reply := do
  match (← get).toClient.findSome? (ServerMessage.replyTo msgid) with
  | some reply =>
    modify fun s => { s with toClient := [] }
    return reply
  | none => throw .waits

/-- `RemoteCall`.  The messages before the request and the request are dispatched while it waits. -/
def remoteCall (request : Request) : Proc Reply := do
  modify count
  let msgid := (← get).trancounter
  sendMessage (.request msgid request)
  modify drained
  await msgid

/-- A call that throws when the server has no success. -/
def ask (request : Request) (what : String) : Proc Reply := do
  internalCheckTerminated
  let reply ← remoteCall request
  throwIf (reply.success ≠ true) (.invalidArgument what)
  return reply

def setupKernel (name hostname servname : String) : Proc Key := do
  let reply ← ask (.setupKernel name hostname servname) "Cannot create two kernels with the same name"
  return number reply.kernelinfo Info.key

def getKernelKey (kernel : String) : Proc Key := do
  let reply ← ask (.getKernelInfo (.inl kernel)) "No such kernel"
  return number reply.kernelinfo Info.key

def getKernelName (kernelkey : Key) : Proc String := do
  let reply ← ask (.getKernelInfo (.inr kernelkey)) "No such kernel"
  return text reply.kernelinfo Info.name

def createNodeKey (kernelkey : Key) (nodename : String) : Proc Key := do
  let reply ← ask (.createNodeKey kernelkey nodename) ("Node " ++ nodename ++ " already exists.")
  return number reply.nodeinfo Info.key

def getNodeKey (nodename : String) : Proc Key := do
  let reply ← ask (.getNodeInfo (.inl nodename)) "No such node"
  return number reply.nodeinfo Info.key

def getNodeName (nodekey : Key) : Proc String := do
  let reply ← ask (.getNodeInfo (.inr nodekey)) "No such node"
  return text reply.nodeinfo Info.name

def getNodeKernel (nodekey : Key) : Proc Key := do
  let reply ← ask (.getNodeInfo (.inr nodekey)) "No such node"
  return number reply.nodeinfo Info.kernelkey

def signalNodeStart (nodekey : Key) : Proc Unit := do
  internalCheckTerminated
  sendMessage (.signalNodeStart nodekey)

def signalNodeEnd (nodekey : Key) : Proc Unit := sendMessage (.signalNodeEnd nodekey)

def getCreateEndpointKey (side : Side) (nodekey : Key) (portname : String) : Proc Key := do
  let reply ← ask (.getCreateEndpointKey side nodekey portname) "No such port"
  return number reply.endpointinfo Info.key

/-- `GetEndpointInfo` asserts what the other calls test. -/
def getEndpointInfo (side : Side) (portkey : Key) : Proc (Option Info) := do
  internalCheckTerminated
  let reply ← remoteCall (.getEndpointInfo side portkey)
  throwIf (reply.success ≠ true) (.assertion "msg")
  return reply.endpointinfo

def getPortNode (side : Side) (portkey : Key) : Proc Key := do
  return number (← getEndpointInfo side portkey) Info.nodekey

def getPortKernel (side : Side) (portkey : Key) : Proc Key := do
  return number (← getEndpointInfo side portkey) Info.kernelkey

def getPortName (side : Side) (portkey : Key) : Proc String := do
  return text (← getEndpointInfo side portkey) Info.name

def connectEndpoints (writerkey readerkey : Key) (qname : String) : Proc Unit := do
  internalCheckTerminated
  sendMessage (.connectEndpoints writerkey readerkey qname)

def getReadersWriter (readerkey : Key) : Proc Key := do
  return number (← getEndpointInfo .reader readerkey) Info.writerkey

def getWritersReader (writerkey : Key) : Proc Key := do
  return number (← getEndpointInfo .writer writerkey) Info.readerkey

end Session

/-- A call of the remote context. -/
def onRemote : Call → Session.Proc Answer
  | .setupKernel name hostname servname => do return .key (← Session.setupKernel name hostname servname)
  | .getKernelKey kernel => do return .key (← Session.getKernelKey kernel)
  | .getKernelName kernelkey => do return .name (← Session.getKernelName kernelkey)
  | .createNodeKey kernelkey nodename => do return .key (← Session.createNodeKey kernelkey nodename)
  | .getNodeKey nodename => do return .key (← Session.getNodeKey nodename)
  | .getNodeName nodekey => do return .name (← Session.getNodeName nodekey)
  | .getNodeKernel nodekey => do return .key (← Session.getNodeKernel nodekey)
  | .signalNodeStart nodekey => do
    Session.signalNodeStart nodekey
    return .done
  | .signalNodeEnd nodekey => do
    Session.signalNodeEnd nodekey
    return .done
  | .getCreatePortKey side nodekey portname => do return .key (← Session.getCreateEndpointKey side nodekey portname)
  | .getPortNode side portkey => do return .key (← Session.getPortNode side portkey)
  | .getPortKernel side portkey => do return .key (← Session.getPortKernel side portkey)
  | .getPortName side portkey => do return .name (← Session.getPortName side portkey)
  | .connectEndpoints writerkey readerkey qname => do
    Session.connectEndpoints writerkey readerkey qname
    return .done
  | .getOpposingPort .reader portkey => do return .key (← Session.getReadersWriter portkey)
  | .getOpposingPort .writer portkey => do return .key (← Session.getWritersReader portkey)

namespace Session

/-! ### What has been sent -/

variable {s : Session} {msg : ClientMessage} {rest : List ClientMessage} {request : Request} {reply : Reply} {t : Server}

private theorem serve_of_nil (h : s.toServer = []) : s.serve = s := by
  rw [serve, h]

/-- The session after the dispatch of a message, once the server is where it leaves it. -/
def dispatched (msg : ClientMessage) (s : Session) : Session :=
  { s with
    server := { final (s.server.dispatchMessage s.name msg) with outbox := [] }
    toClient := s.toClient ++ (final (s.server.dispatchMessage s.name msg)).outbox.filterMap (Network.mail s.name) }

private theorem serve_of_cons (h : s.toServer = msg :: rest) : s.serve = { s.dispatched msg with toServer := rest } := by
  rw [serve, h]
  rfl

private theorem drained_of_cons (h : s.toServer = msg :: rest) :
    s.drained = drained { s.dispatched msg with toServer := rest } := by
  rw [drained, h, List.length_cons, Function.iterate_succ_apply, serve_of_cons h]
  rfl

/-- When the server dispatches what it has does not matter. -/
theorem drained_serve (s : Session) : s.serve.drained = s.drained := by
  cases h : s.toServer with
  | nil => rw [serve_of_nil h]
  | cons msg rest => rw [serve_of_cons h, drained_of_cons h]

private theorem drained_toServer (s : Session) : s.drained.toServer = [] := by
  cases s with
  | mk name shutdown trancounter toServer toClient server =>
    induction toServer generalizing toClient server with
    | nil => rfl
    | cons msg rest ih =>
      rw [drained_of_cons rfl]
      exact ih ..

/-- What is sent last is dispatched last. -/
theorem drained_post (msg : ClientMessage) (s : Session) : (s.post msg).drained = s.drained.dispatched msg := by
  cases s with
  | mk name shutdown trancounter toServer toClient server =>
    induction toServer generalizing toClient server with
    | nil => rfl
    | cons first rest ih =>
      rw [drained_of_cons rfl]
      exact ih ..

/-- The channels have no part in the counter and the shutdown. -/
theorem drained_client (s : Session) :
    s.drained.name = s.name ∧ s.drained.shutdown = s.shutdown ∧ s.drained.trancounter = s.trancounter := by
  cases s with
  | mk name shutdown trancounter toServer toClient server =>
    induction toServer generalizing toClient server with
    | nil => exact ⟨rfl, rfl, rfl⟩
    | cons first rest ih =>
      rw [drained_of_cons rfl]
      exact ih ..

private theorem drained_count (s : Session) : s.count.drained = s.drained.count := by
  have hcommute : Function.Commute count serve := by
    rintro ⟨name, shutdown, trancounter, toServer, toClient, server⟩
    cases toServer with
    | nil => rfl
    | cons msg rest => rfl
  exact ((hcommute.iterate_right _) s).symm

private theorem await_run {msgid : UInt32} (h : s.toClient.findSome? (ServerMessage.replyTo msgid) = some reply) :
    await msgid s = .ok reply { s with toClient := [] } := by
  unfold await
  rw [bind_ok get_run, h]
  rfl

private theorem await_waits {msgid : UInt32} (h : s.toClient.findSome? (ServerMessage.replyTo msgid) = none) :
    await msgid s = .error .waits s := by
  unfold await
  rw [bind_ok get_run, h]
  rfl

/-- The session after a call, once the server is in this state. -/
def afterCall (t : Server) (s : Session) : Session where
  name := s.name
  trancounter := s.trancounter + 1
  server := { t with outbox := [] }

end Session

/-! ### What the server shows -/

/-- The member of an endpoint that the other endpoint is in. -/
def Info.opposing (info : Info) : Side → Option Key
  | .reader => info.writerkey
  | .writer => info.readerkey

open Registry.Directory (Node Port Entry)

/-- The object of the server for an entry of the directory.  The readers and the writers of a node are in one table. -/
def ShowsEntry (k : Key) : Entry → Info → Prop
  | .kernel name, info => info.type = some .kernelinfo ∧ info.key = some k ∧ info.name = some name ∧
    info.endpoints = none
  | .node node, info => info.type = some .nodeinfo ∧ info.key = some k ∧ info.name = some node.name ∧
    info.kernelkey = some node.kernelkey ∧
      ∀ name, Server.endpoint (some info) name = (node.ports .reader name).or (node.ports .writer name)
  | .port side port, info => info.type = some .endpointinfo ∧ info.key = some k ∧ info.name = some port.name ∧
    info.nodekey = some port.nodekey ∧ info.kernelkey = some port.kernelkey ∧
      (info.opposing side).getD 0 = port.opposing ∧ info.endpoints = none

/-- The table of the server shows the directory. -/
structure Shows (d : Directory) (t : Server) : Prop where
  runs : t.shutdown = false
  sent : t.outbox = []
  counter : t.keycount = d.counter
  kernelmap : t.kernelmap = d.kernelnames
  nodemap : t.nodemap = d.nodenames
  absent : ∀ k, d.entries k = none → t.datamap k = none
  present : ∀ k e, d.entries k = some e → ∃ info, t.datamap k = some (some info) ∧ ShowsEntry k e info

namespace Shows

variable {d : Directory} {t : Server} {k : Key} {e : Entry} {info : Info} {side : Side}

private theorem put (h : Shows d t) (hinfo : ShowsEntry k e info) : Shows (d.put k e) (t.put k (some info)) where
  runs := h.runs
  sent := h.sent
  counter := h.counter
  kernelmap := h.kernelmap
  nodemap := h.nodemap
  absent k' hk' := by
    rw [Directory.put_entries] at hk'
    rw [Server.put_datamap]
    split_ifs at hk' ⊢ with heq
    exact h.absent k' hk'
  present k' e' hk' := by
    rw [Directory.put_entries] at hk'
    rw [Server.put_datamap]
    split_ifs at hk' ⊢ with heq
    · cases hk'
      exact ⟨info, rfl, heq ▸ hinfo⟩
    · exact h.present k' e' hk'

private theorem newKey (h : Shows d t) : Shows { d with counter := t.keycount + 1 } { t with keycount := t.keycount + 1 } :=
  ⟨h.runs, h.sent, rfl, h.kernelmap, h.nodemap, h.absent, h.present⟩

private theorem setKernelNames (h : Shows d t) (names : String → Option Key) :
    Shows { d with kernelnames := names } { t with kernelmap := names } :=
  ⟨h.runs, h.sent, h.counter, rfl, h.nodemap, h.absent, h.present⟩

private theorem setNodeNames (h : Shows d t) (names : String → Option Key) :
    Shows { d with nodenames := names } { t with nodemap := names } :=
  ⟨h.runs, h.sent, h.counter, h.kernelmap, rfl, h.absent, h.present⟩

/-- The object is changed in a member that the entry does not show. -/
theorem assigned (h : Shows d t) (hk : d.entries k = some e) (f : Info → Info)
    (hf : ∀ info, ShowsEntry k e info → ShowsEntry k e (f info)) : Shows d (t.assigned k f) := by
  obtain ⟨info, hdata, hshows⟩ := h.present k e hk
  have hput := h.put (hf info hshows)
  rw [Directory.put_eq hk] at hput
  rw [Server.assigned, hdata]
  exact hput

private theorem setOpposing (h : Shows d t) {port : Port} (hk : d.entries k = some (.port side port)) (opposing : Key)
    (f : Info → Info)
    (hf : ∀ info, ShowsEntry k (.port side port) info →
      ShowsEntry k (.port side { port with opposing := opposing }) (f info)) :
    Shows (d.put k (.port side { port with opposing := opposing })) (t.assigned k f) := by
  obtain ⟨info, hdata, hshows⟩ := h.present k _ hk
  have hput := h.put (hf info hshows)
  rw [Server.assigned, hdata]
  exact hput

end Shows

/-- Once everything has been dispatched the server shows the directory, and no reply is left over. -/
structure Follows (d : Directory) (s : Session) : Prop where
  runs : s.shutdown = false
  shows : Shows d s.drained.server
  noReply : ∀ msgid reply, .reply msgid reply ∉ s.drained.toClient

namespace Follows

open Session

variable {d d' : Directory} {s : Session} {t : Server} {request : Request} {reply : Reply} {msg : ClientMessage}

theorem serve (h : Follows d s) : Follows d s.serve where
  runs := by
    cases hmsg : s.toServer with
    | nil =>
      rw [serve_of_nil hmsg]
      exact h.runs
    | cons msg rest =>
      rw [serve_of_cons hmsg]
      exact h.runs
  shows := by
    rw [drained_serve]
    exact h.shows
  noReply := by
    rw [drained_serve]
    exact h.noReply

/-- A message without a reply. -/
theorem post (h : Follows d s)
    (hrun : ∃ t more, s.drained.server.dispatchMessage s.name msg = .ok () { t with outbox := more } ∧ Shows d' t ∧
      ∀ recipient msgid reply, (recipient, .reply msgid reply) ∉ more) : Follows d' (s.post msg) := by
  obtain ⟨t, more, hrun, hshows, hmore⟩ := hrun
  have hname := (drained_client s).1
  refine ⟨h.runs, ?_, fun msgid reply hmem => ?_⟩
  · rw [drained_post, dispatched, hname, hrun]
    exact ⟨hshows.runs, rfl, hshows.counter, hshows.kernelmap, hshows.nodemap, hshows.absent, hshows.present⟩
  · rw [drained_post, dispatched, hname, hrun, List.mem_append, List.mem_filterMap] at hmem
    obtain hmem | ⟨⟨recipient, m⟩, hmem, hmail⟩ := hmem
    · exact h.noReply msgid reply hmem
    · refine hmore recipient msgid reply ?_
      cases recipient with
      | everyone =>
        cases hmail
        exact hmem
      | client name =>
        rw [Network.mail] at hmail
        split_ifs at hmail
        cases hmail
        exact hmem

theorem afterCall (h : Shows d t) (s : Session) : Follows d (s.afterCall t) where
  runs := rfl
  shows := ⟨h.runs, rfl, h.counter, h.kernelmap, h.nodemap, h.absent, h.present⟩
  noReply msgid reply hmem := by cases hmem

/-- The server dispatches a request last. -/
theorem drained_request (h : Follows d s) (request : Request) :
    (s.count.post (.request (s.trancounter + 1) request)).drained =
      { name := s.name
        shutdown := false
        trancounter := s.trancounter + 1
        toServer := []
        toClient := s.drained.toClient ++
          (final (Server.handle s.name (s.trancounter + 1) request s.drained.server)).outbox.filterMap
            (Network.mail s.name)
        server :=
          { final (Server.handle s.name (s.trancounter + 1) request s.drained.server) with outbox := [] } } := by
  have hrun : s.drained.server.dispatchMessage s.name (.request (s.trancounter + 1) request) =
      Server.handle s.name (s.trancounter + 1) request s.drained.server := by
    unfold Server.dispatchMessage
    rw [bind_ok get_run, h.shows.runs]
    rfl
  obtain ⟨hname, hshutdown, hcount⟩ := drained_client s
  rw [h.runs] at hshutdown
  rw [drained_post, drained_count, ← hrun]
  simp only [dispatched, count, hname, hshutdown, hcount, drained_toServer]

private theorem findSome?_eq_none (h : Follows d s) (msgid : UInt32) :
    s.drained.toClient.findSome? (ServerMessage.replyTo msgid) = none := by
  rw [List.findSome?_eq_none_iff]
  intro msg hmem
  cases msg with
  | reply id reply => exact absurd hmem (h.noReply id reply)
  | broadcast msg => rfl
  | kernel kernelkey msg => rfl
  | terminate => rfl

theorem check (h : Follows d s) : internalCheckTerminated s = .ok () s := by
  unfold internalCheckTerminated
  rw [bind_ok get_run, throwIf_neg (by rw [h.runs]; exact Bool.false_ne_true)]

/-- A call that the server answers. -/
theorem remoteCall_run (h : Follows d s) (hrun : Server.handle s.name (s.trancounter + 1) request s.drained.server =
    .ok () (Server.replied s.name (s.trancounter + 1) reply t)) (hsent : t.outbox = []) :
    remoteCall request s = .ok reply (s.afterCall t) := by
  have hmail : (Server.replied s.name (s.trancounter + 1) reply t).outbox.filterMap (Network.mail s.name) =
      [ServerMessage.reply (s.trancounter + 1) reply] := by
    simp [Server.replied, Server.sent, hsent, Network.mail]
  have hfound : (s.drained.toClient ++ [ServerMessage.reply (s.trancounter + 1) reply]).findSome?
      (ServerMessage.replyTo (s.trancounter + 1)) = some reply := by
    rw [List.findSome?_append, h.findSome?_eq_none]
    simp [ServerMessage.replyTo]
  have hcall : remoteCall request s =
      await (s.trancounter + 1) (s.count.post (.request (s.trancounter + 1) request)).drained := rfl
  rw [hcall, h.drained_request request, hrun, final_ok, hmail]
  exact await_run hfound

/-- A call that the server does not answer. -/
theorem remoteCall_waits (h : Follows d s)
    (hrun : (final (Server.handle s.name (s.trancounter + 1) request s.drained.server)).outbox = []) :
    ∃ s', remoteCall request s = .error .waits s' := by
  have hcall : remoteCall request s =
      await (s.trancounter + 1) (s.count.post (.request (s.trancounter + 1) request)).drained := rfl
  rw [hcall, h.drained_request request, hrun, List.filterMap_nil, List.append_nil]
  exact ⟨_, await_waits (h.findSome?_eq_none _)⟩

variable {what : String}

private theorem ask_run (h : Follows d s) (hrun : Server.handle s.name (s.trancounter + 1) request s.drained.server =
    .ok () (Server.replied s.name (s.trancounter + 1) reply t)) (hsent : t.outbox = []) (hsuccess : reply.success = true) :
    ask request what s = .ok reply (s.afterCall t) := by
  unfold ask
  rw [bind_ok h.check, bind_ok (h.remoteCall_run hrun hsent), bind_ok (throwIf_neg (not_not.2 hsuccess))]
  rfl

theorem ask_throws (h : Follows d s) (hrun : Server.handle s.name (s.trancounter + 1) request s.drained.server =
    .ok () (Server.replied s.name (s.trancounter + 1) { success := false } t)) (hsent : t.outbox = []) :
    ask request what s = .error (.invalidArgument what) (s.afterCall t) := by
  unfold ask
  rw [bind_ok h.check, bind_ok (h.remoteCall_run hrun hsent)]
  exact bind_error (throwIf_pos Bool.false_ne_true)

theorem ask_waits (h : Follows d s)
    (hrun : (final (Server.handle s.name (s.trancounter + 1) request s.drained.server)).outbox = []) :
    ∃ s', ask request what s = .error .waits s' := by
  obtain ⟨s', hwaits⟩ := h.remoteCall_waits hrun
  refine ⟨s', ?_⟩
  unfold ask
  rw [bind_ok h.check, bind_error hwaits]

/-! What a request for an object finds: nothing, an object of its kind, or another object. -/

theorem getKernelInfo_cases (h : Follows d s) (which : String ⊕ Key) (what : String) :
    (∃ s', ask (.getKernelInfo which) what s = .error (.invalidArgument what) s' ∧ Follows d s' ∧
      (Server.keyOf d.kernelnames which).bind d.entries = none) ∨
    (∃ k name info s', Server.keyOf d.kernelnames which = some k ∧ d.entries k = some (.kernel name) ∧
      ShowsEntry k (.kernel name) info ∧
        ask (.getKernelInfo which) what s = .ok { success := true, kernelinfo := some info } s' ∧ Follows d s') ∨
    ∃ k e s', Server.keyOf d.kernelnames which = some k ∧ d.entries k = some e ∧ e.kernel? = none ∧
      ask (.getKernelInfo which) what s = .error .waits s' := by
  have hsent := h.shows.sent
  have hrun : Server.handle s.name (s.trancounter + 1) (.getKernelInfo which) s.drained.server =
      Server.getKernelInfo s.name (s.trancounter + 1) (Server.keyOf d.kernelnames which) s.drained.server := by
    rw [← h.shows.kernelmap]
    rfl
  cases hkey : Server.keyOf d.kernelnames which with
  | none =>
    rw [hkey] at hrun
    exact .inl ⟨_, h.ask_throws (hrun.trans (Server.getKernelInfo_none rfl)) hsent, .afterCall h.shows s, rfl⟩
  | some k =>
    rw [hkey] at hrun
    cases hk : d.entries k with
    | none =>
      exact .inl ⟨_, h.ask_throws (hrun.trans (Server.getKernelInfo_none (h.shows.absent k hk))) hsent,
        .afterCall h.shows s, hk⟩
    | some e =>
      obtain ⟨info, hdata, hshows⟩ := h.shows.present k e hk
      have hother (htype : info.type ≠ some .kernelinfo) :
          ∃ s', ask (.getKernelInfo which) what s = .error .waits s' := by
        have hkind : s.drained.server.kindAt k ≠ some .kernelinfo := by
          rw [Server.kindAt, hdata]
          exact htype
        refine h.ask_waits ?_
        rw [hrun, Server.getKernelInfo_error (by rw [hdata]; rfl) hkind]
        exact (Server.quiet_asked k).1.trans hsent
      cases e with
      | kernel name =>
        exact .inr (.inl ⟨k, name, info, _, rfl, hk, hshows,
          h.ask_run (hrun.trans (Server.getKernelInfo_run hdata hshows.1)) hsent rfl, .afterCall h.shows s⟩)
      | node node =>
        obtain ⟨s', hwaits⟩ := hother (by rw [hshows.1]; decide)
        exact .inr (.inr ⟨k, _, s', rfl, hk, rfl, hwaits⟩)
      | port side port =>
        obtain ⟨s', hwaits⟩ := hother (by rw [hshows.1]; decide)
        exact .inr (.inr ⟨k, _, s', rfl, hk, rfl, hwaits⟩)

theorem getNodeInfo_cases (h : Follows d s) (which : String ⊕ Key) (what : String) :
    (∃ s', ask (.getNodeInfo which) what s = .error (.invalidArgument what) s' ∧ Follows d s' ∧
      (Server.keyOf d.nodenames which).bind d.entries = none) ∨
    (∃ k node info s', Server.keyOf d.nodenames which = some k ∧ d.entries k = some (.node node) ∧
      ShowsEntry k (.node node) info ∧
        ask (.getNodeInfo which) what s = .ok { success := true, nodeinfo := some info } s' ∧ Follows d s') ∨
    ∃ k e s', Server.keyOf d.nodenames which = some k ∧ d.entries k = some e ∧ e.node? = none ∧
      ask (.getNodeInfo which) what s = .error .waits s' := by
  have hsent := h.shows.sent
  have hrun : Server.handle s.name (s.trancounter + 1) (.getNodeInfo which) s.drained.server =
      Server.getNodeInfo s.name (s.trancounter + 1) (Server.keyOf d.nodenames which) s.drained.server := by
    rw [← h.shows.nodemap]
    rfl
  cases hkey : Server.keyOf d.nodenames which with
  | none =>
    rw [hkey] at hrun
    exact .inl ⟨_, h.ask_throws (hrun.trans (Server.getNodeInfo_none rfl)) hsent, .afterCall h.shows s, rfl⟩
  | some k =>
    rw [hkey] at hrun
    cases hk : d.entries k with
    | none =>
      exact .inl ⟨_, h.ask_throws (hrun.trans (Server.getNodeInfo_none (h.shows.absent k hk))) hsent,
        .afterCall h.shows s, hk⟩
    | some e =>
      obtain ⟨info, hdata, hshows⟩ := h.shows.present k e hk
      have hother (htype : info.type ≠ some .nodeinfo) :
          ∃ s', ask (.getNodeInfo which) what s = .error .waits s' := by
        have hkind : s.drained.server.kindAt k ≠ some .nodeinfo := by
          rw [Server.kindAt, hdata]
          exact htype
        refine h.ask_waits ?_
        rw [hrun, Server.getNodeInfo_error (by rw [hdata]; rfl) hkind]
        exact hsent
      cases e with
      | node node =>
        exact .inr (.inl ⟨k, node, info, _, rfl, hk, hshows,
          h.ask_run (hrun.trans (Server.getNodeInfo_run hdata hshows.1)) hsent rfl, .afterCall h.shows s⟩)
      | kernel name =>
        obtain ⟨s', hwaits⟩ := hother (by rw [hshows.1]; decide)
        exact .inr (.inr ⟨k, _, s', rfl, hk, rfl, hwaits⟩)
      | port side port =>
        obtain ⟨s', hwaits⟩ := hother (by rw [hshows.1]; decide)
        exact .inr (.inr ⟨k, _, s', rfl, hk, rfl, hwaits⟩)

/-- The side of the request is not looked at. -/
theorem getEndpointInfo_cases (h : Follows d s) (side : Side) (k : Key) :
    (∃ side' port info s', d.entries k = some (.port side' port) ∧ ShowsEntry k (.port side' port) info ∧
      getEndpointInfo side k s = .ok (some info) s' ∧ Follows d s') ∨
    (∀ side' port, d.entries k ≠ some (.port side' port)) ∧
      ∃ stop s', getEndpointInfo side k s = .error stop s' ∧ ∀ what, stop ≠ .invalidArgument what := by
  have hsent := h.shows.sent
  cases hk : d.entries k with
  | none =>
    have hcall : remoteCall (.getEndpointInfo side k) s = .ok { success := false } (s.afterCall s.drained.server) :=
      h.remoteCall_run (Server.getEndpointInfo_none (h.shows.absent k hk)) hsent
    have hstop : getEndpointInfo side k s = .error (.assertion "msg") (s.afterCall s.drained.server) := by
      unfold getEndpointInfo
      rw [bind_ok h.check, bind_ok hcall]
      exact bind_error (throwIf_pos Bool.false_ne_true)
    refine .inr ⟨fun side' port hport => ?_, _, _, hstop, fun what heq => ?_⟩
    · cases hport
    · cases heq
  | some e =>
    obtain ⟨info, hdata, hshows⟩ := h.shows.present k e hk
    have hother (htype : info.type ≠ some .endpointinfo) :
        ∃ stop s', getEndpointInfo side k s = .error stop s' ∧ ∀ what, stop ≠ .invalidArgument what := by
      have hkind : s.drained.server.kindAt k ≠ some .endpointinfo := by
        rw [Server.kindAt, hdata]
        exact htype
      have herror : Server.handle s.name (s.trancounter + 1) (.getEndpointInfo side k) s.drained.server =
          .error (.assertion "type") s.drained.server := Server.getEndpointInfo_error (by rw [hdata]; rfl) hkind
      obtain ⟨s', hwaits⟩ : ∃ s', remoteCall (.getEndpointInfo side k) s = .error .waits s' := by
        refine h.remoteCall_waits ?_
        rw [herror]
        exact hsent
      refine ⟨.waits, s', ?_, fun what heq => ?_⟩
      · unfold getEndpointInfo
        rw [bind_ok h.check, bind_error hwaits]
      · cases heq
    cases e with
    | port side' port =>
      have hcall : remoteCall (.getEndpointInfo side k) s =
          .ok { success := true, endpointinfo := some info } (s.afterCall s.drained.server) :=
        h.remoteCall_run (Server.getEndpointInfo_run hdata hshows.1) hsent
      refine .inl ⟨side', port, info, s.afterCall s.drained.server, rfl, hshows, ?_, .afterCall h.shows s⟩
      unfold getEndpointInfo
      rw [bind_ok h.check, bind_ok hcall, bind_ok (throwIf_neg (not_not.2 rfl))]
      rfl
    | kernel name =>
      refine .inr ⟨fun side' port hport => ?_, hother (by rw [hshows.1]; decide)⟩
      cases hport
    | node node =>
      refine .inr ⟨fun side' port hport => ?_, hother (by rw [hshows.1]; decide)⟩
      cases hport

/-! The calls that change the registry. -/

theorem setupKernel (h : Follows d s) (hd : d.Sound) {name : String} (hname : d.kernelnames name = none)
    (hostname servname : String) :
    ∃ s', Session.setupKernel name hostname servname s = .ok (d.counter + 1) s' ∧ Follows (d.addKernel name) s' := by
  let info := Server.newKernel s.name name hostname servname (s.drained.server.keycount + 1)
  have hname' : s.drained.server.kernelmap name = none := by rw [h.shows.kernelmap, hname]
  have hshows : ShowsEntry (s.drained.server.keycount + 1) (.kernel name) info := ⟨rfl, rfl, rfl, rfl⟩
  have hfree : s.drained.server.datamap (s.drained.server.keycount + 1) = none := by
    refine h.shows.absent _ ?_
    rw [h.shows.counter]
    exact hd.entries_succ
  have hput : Shows (d.addKernel name) (s.drained.server.withKernel s.name name hostname servname) := by
    have hnew := (h.shows.newKey.put hshows).setKernelNames
      (Function.update s.drained.server.kernelmap name (some (s.drained.server.keycount + 1)))
    rw [Directory.addKernel, Directory.add, ← h.shows.kernelmap, ← h.shows.counter, Server.withKernel]
    unfold Server.insert
    rw [if_neg (by rw [hfree]; exact Bool.false_ne_true)]
    exact hnew
  have hrun : ask (.setupKernel name hostname servname) "Cannot create two kernels with the same name" s = .ok _ _ :=
    h.ask_run (Server.setupKernel_run hname') hput.sent rfl
  refine ⟨_, ?_, .afterCall hput s⟩
  unfold Session.setupKernel
  rw [bind_ok hrun, ← h.shows.counter]
  rfl

theorem createNodeKey (h : Follows d s) {nodename : String} (hname : d.nodenames nodename = none) (kernelkey : Key) :
    ∃ s', Session.createNodeKey kernelkey nodename s = .ok (d.counter + 1) s' ∧
      Follows (d.addNode kernelkey nodename) s' := by
  let info := Server.newNode kernelkey nodename (s.drained.server.keycount + 1)
  have hname' : s.drained.server.nodemap nodename = none := by rw [h.shows.nodemap, hname]
  have hshows : ShowsEntry (s.drained.server.keycount + 1) (.node { name := nodename, kernelkey := kernelkey }) info :=
    ⟨rfl, rfl, rfl, rfl, fun _ => rfl⟩
  have hput : Shows (d.addNode kernelkey nodename) (s.drained.server.withNode kernelkey nodename) := by
    have hnew := (h.shows.newKey.put hshows).setNodeNames
      (Function.update s.drained.server.nodemap nodename (some (s.drained.server.keycount + 1)))
    rw [Directory.addNode, Directory.add, ← h.shows.nodemap, ← h.shows.counter]
    exact hnew
  have hrun : ask (.createNodeKey kernelkey nodename) ("Node " ++ nodename ++ " already exists.") s = .ok _ _ :=
    h.ask_run (Server.createNodeKey_run hname') hput.sent rfl
  refine ⟨_, ?_, .afterCall hput s⟩
  unfold Session.createNodeKey
  rw [bind_ok hrun, ← h.shows.counter]
  rfl

/-- The message of `SignalNodeStart` or `SignalNodeEnd` for a node. -/
theorem signalNode (h : Follows d s) {nodekey : Key} {node : Node} (hnode : d.entries nodekey = some (.node node))
    (mark : Info → Info) (count : Server → Server)
    (hmark : ∀ info, ShowsEntry nodekey (.node node) info → ShowsEntry nodekey (.node node) (mark info))
    (hcount : ∀ t, Shows d t → Shows d (count t))
    (hrun : ∀ t, t.shutdown = false → t.dispatchMessage s.name msg = Server.signalNode mark nodekey (count t)) :
    Follows d (s.post msg) := by
  have hshows := hcount _ h.shows
  obtain ⟨info, hdata, hinfo⟩ := hshows.present nodekey _ hnode
  have hput := hshows.put (hmark info hinfo)
  rw [Directory.put_eq hnode] at hput
  refine h.post ⟨_, _, (hrun _ h.shows.runs).trans (Server.signalNode_run hdata hinfo.1), hput,
    fun recipient msgid reply hmem => ?_⟩
  rw [hput.sent, List.nil_append, List.mem_singleton] at hmem
  cases hmem

theorem signalNodeStart (h : Follows d s) {nodekey : Key} {node : Node} (hnode : d.entries nodekey = some (.node node)) :
    Follows d (s.post (.signalNodeStart nodekey)) := by
  refine h.signalNode hnode Info.start (fun t => { t with numlivenodes := t.numlivenodes + 1 })
    (fun info hinfo => hinfo)
    (fun t ht => ⟨ht.runs, ht.sent, ht.counter, ht.kernelmap, ht.nodemap, ht.absent, ht.present⟩) fun t ht => ?_
  unfold Server.dispatchMessage
  rw [bind_ok get_run, if_neg (by rw [ht]; exact Bool.false_ne_true)]
  rfl

theorem signalNodeEnd (h : Follows d s) {nodekey : Key} {node : Node} (hnode : d.entries nodekey = some (.node node)) :
    Follows d (s.post (.signalNodeEnd nodekey)) := by
  refine h.signalNode hnode Info.kill (fun t => { t with numlivenodes := t.numlivenodes - 1 })
    (fun info hinfo => hinfo)
    (fun t ht => ⟨ht.runs, ht.sent, ht.counter, ht.kernelmap, ht.nodemap, ht.absent, ht.present⟩) fun t ht => ?_
  unfold Server.dispatchMessage
  rw [bind_ok get_run, if_neg (by rw [ht]; exact Bool.false_ne_true)]
  rfl

theorem connectEndpoints (h : Follows d s) {writerkey readerkey : Key} {writer reader : Port}
    (hw : d.entries writerkey = some (.port .writer writer)) (hr : d.entries readerkey = some (.port .reader reader))
    (qname : String) :
    Follows (d.connect writerkey writer readerkey reader) (s.post (.connectEndpoints writerkey readerkey qname)) := by
  let d₁ := d.put writerkey (.port .writer { writer with opposing := readerkey })
  have hr₁ : d₁.entries readerkey = some (.port .reader reader) := by
    rw [Directory.put_entries, if_neg (Directory.ne_of_entries hw hr), hr]
  have hw₂ : (d.connect writerkey writer readerkey reader).entries writerkey =
      some (.port .writer { writer with opposing := readerkey }) := by
    rw [Directory.connect, Directory.put_entries, if_neg (Directory.ne_of_entries hw hr).symm, Directory.put_entries,
      if_pos rfl]
  have hr₂ : (d.connect writerkey writer readerkey reader).entries readerkey =
      some (.port .reader { reader with opposing := writerkey }) := by
    rw [Directory.connect, Directory.put_entries, if_pos rfl]
  have hshows : Shows (d.connect writerkey writer readerkey reader)
      (s.drained.server.withConnection writerkey readerkey qname) := by
    have hfirst := h.shows.setOpposing hw readerkey (fun info => { info with readerkey := some readerkey })
      fun info ⟨htype, hkey, hname, hnode, hkernel, _, hends⟩ => ⟨htype, hkey, hname, hnode, hkernel, rfl, hends⟩
    have hsecond := hfirst.setOpposing hr₁ writerkey (fun info => { info with writerkey := some writerkey })
      fun info ⟨htype, hkey, hname, hnode, hkernel, _, hends⟩ => ⟨htype, hkey, hname, hnode, hkernel, rfl, hends⟩
    have hthird := Shows.assigned hsecond hr₂ (fun info => { info with qname := some qname }) fun info hinfo => hinfo
    exact hthird.assigned hw₂ (fun info => { info with qname := some qname }) fun info hinfo => hinfo
  refine h.post ⟨_, [], ?_, hshows, fun recipient msgid reply hmem => by cases hmem⟩
  have hrun : s.drained.server.dispatchMessage s.name (.connectEndpoints writerkey readerkey qname) =
      Server.connectEndpoints writerkey readerkey qname s.drained.server := by
    unfold Server.dispatchMessage
    rw [bind_ok get_run, h.shows.runs]
    rfl
  rw [hrun, Server.connectEndpoints_run]
  exact congrArg (EStateM.Result.ok ()) (congrArg (fun more =>
    { s.drained.server.withConnection writerkey readerkey qname with outbox := more }) hshows.sent)

/-- An endpoint that is there, under whichever side it was made. -/
theorem getCreateEndpointKey_run (h : Follows d s) (side : Side) {side' : Side} {k k' : Key} {info : Info} {port : Port}
    {portname : String} (hdata : s.drained.server.datamap k = some (some info))
    (hep : Server.endpoint (some info) portname = some k') (hport : d.entries k' = some (.port side' port)) :
    ∃ s', getCreateEndpointKey side k portname s = .ok k' s' ∧ Follows d s' := by
  obtain ⟨epinfo, hepdata, hshows⟩ := h.shows.present k' _ hport
  have hrun : ask (.getCreateEndpointKey side k portname) "No such port" s = .ok _ _ :=
    h.ask_run (Server.getCreateEndpointKey_run hdata hep hepdata hshows.1) h.shows.sent rfl
  refine ⟨_, ?_, .afterCall h.shows s⟩
  unfold getCreateEndpointKey
  rw [bind_ok hrun]
  change EStateM.Result.ok ((epinfo.key).getD 0) _ = _
  rw [hshows.2.1]
  rfl

/-- A new endpoint, of whatever is under the key. -/
theorem getCreateEndpointKey_new (h : Follows d s) {side : Side} {k : Key} {info : Info} {portname : String}
    (hdata : s.drained.server.datamap k = some (some info)) (hep : Server.endpoint (some info) portname = none) :
    getCreateEndpointKey side k portname s =
      .ok (d.counter + 1) (s.afterCall (s.drained.server.withEndpointAt k (some info) portname)) := by
  have hsent := (Server.quiet_withEndpointAt (s := s.drained.server) k (some info) portname).1.trans h.shows.sent
  have hrun : ask (.getCreateEndpointKey side k portname) "No such port" s = .ok _ _ :=
    h.ask_run (Server.getCreateEndpointKey_new hdata hep) hsent rfl
  unfold getCreateEndpointKey
  rw [bind_ok hrun, ← h.shows.counter]
  rfl

theorem addPort (h : Follows d s) (hd : d.Sound) {side : Side} {k : Key} {node : Node} {info : Info} {portname : String}
    (hk : d.entries k = some (.node node))
    (hinfo : ShowsEntry k (.node node) info) (hother : node.ports side.other portname = none) :
    Follows (d.addPort side k node portname) (s.afterCall (s.drained.server.withEndpointAt k (some info) portname)) := by
  refine .afterCall ?_ s
  have hne : k ≠ s.drained.server.keycount + 1 := h.shows.counter ▸ hd.ne_succ hk
  let port : Port := { name := portname, nodekey := k, kernelkey := node.kernelkey }
  let epinfo := Server.newEndpoint k info.kernelkey portname (s.drained.server.keycount + 1)
  have hport : ShowsEntry (s.drained.server.keycount + 1) (.port side port) epinfo := by
    refine ⟨rfl, rfl, rfl, rfl, hinfo.2.2.2.1, ?_, rfl⟩
    cases side with
    | reader => rfl
    | writer => rfl
  obtain ⟨htype, hkey, hname, hkernel, hends⟩ := hinfo
  have hnode : ShowsEntry k (.node (node.withPort side portname (s.drained.server.keycount + 1)))
      (Server.withEndpoint portname (s.drained.server.keycount + 1) info) := by
    refine ⟨htype, hkey, hname, hkernel, fun name => ?_⟩
    rw [Server.endpoint_withEndpoint, hends, Directory.Node.withPort_ports, Directory.Node.withPort_ports]
    cases side with
    | reader =>
      by_cases heq : name = portname <;> simp [heq]
    | writer =>
      by_cases heq : name = portname
      · subst heq
        have hnone : node.ports .reader name = none := hother
        simp [hnone]
      · simp [heq]
  have hnew := (h.shows.newKey.put hport).put hnode
  rw [Directory.addPort, Directory.add, ← h.shows.counter, Server.withEndpointAt]
  dsimp only [Server.addEndpoint]
  rw [Server.put_comm _ hne]
  exact hnew

end Follows

end ProcessNetwork.RemoteContext
