import ProcessNetwork.ServerNotices
import ProcessNetwork.RemoteContext

/-!
# Waiting for starts and ends

A wait of a client begins to listen to all notices, asks the server, and then goes through the notices that have come since.
So whatever comes to be after the query has been processed is in a notice that the wait still gets, and it does not stay
blocked (`no_wait_lost`).
-/

namespace ProcessNetwork.RemoteContext

open Exceptions
open Registry (Key Stop Side)

inductive WaitPhase
  /-- In `RemoteCall`. -/
  | querying
  /-- In the loop over the messages. -/
  | looping
  /-- In `cond.Wait` of the loop. -/
  | waiting
  | ended
deriving DecidableEq, Repr

/-- A `WaitFor…` under way, with its `GenericWaiter`. -/
structure Wait where
  awaited : Awaited
  /-- The index of its call. -/
  call : Nat
  phase : WaitPhase := .querying
  messages : List Broadcast := []

/-- The thread of the wait goes on: when its call has returned, in the loop over the messages, or when it has been woken by
a message or by the termination of the context. -/
def Wait.resume (c : Calls Reply) (wait : Wait) : Option Wait :=
  match wait.phase with
  | .querying => do
    let call ← c.waiters[wait.call]?
    match call.phase, call.msg with
    | .returned, some reply => some { wait with phase := if wait.awaited.answered reply then .ended else .looping }
    | .threw, _ => some { wait with phase := .ended }
    | _, _ => none
  | .looping =>
    match wait.messages with
    | [] => some { wait with phase := .waiting }
    | msg :: rest => some { wait with
        messages := rest
        phase := if wait.awaited.told msg then .ended else .looping }
  | .waiting =>
    if c.shutdown then some { wait with phase := .ended }
    else if wait.messages.isEmpty then none else some { wait with phase := .looping }
  | .ended => none

/-- The message is the query of the wait. -/
def Wait.Queries (c : Calls Reply) (msg : ClientMessage) (wait : Wait) : Prop :=
  wait.phase = .querying ∧ ∃ call request, c.waiters[wait.call]? = some call ∧ call.signaled = false ∧
    msg = .request call.waiterid request

/-- The clients and their server, with the waits of the clients. -/
structure Waits where
  net : Network := {}
  waits : String → List Wait := fun _ => []

inductive WaitAct
  | net (a : NetworkAct)
  /-- A thread of the client calls one of the `WaitFor…`. -/
  | wait (client : String) (awaited : Awaited)
  | resume (client : String) (j : Nat)

/-- `DispatchMessage` of a client, as far as its waits go. -/
def Wait.hear (msg : ServerMessage) (wait : Wait) : Wait :=
  match msg with
  | .broadcast b => { wait with messages := wait.messages ++ [b] }
  | _ => wait

namespace Waits

variable {w w' : Waits} {name : String} {j : Nat} {wait : Wait}

/-- The waits after a step of the network. -/
def heard (w : Waits) : NetworkAct → String → List Wait
  | .deliver name =>
    match w.net.toClient name with
    | [] => w.waits
    | msg :: _ => Function.update w.waits name ((w.waits name).map (Wait.hear msg))
  | _ => w.waits

private theorem heard_deliver {msg : ServerMessage} {rest : List ServerMessage} (h : w.net.toClient name = msg :: rest) :
    w.heard (.deliver name) = Function.update w.waits name ((w.waits name).map (Wait.hear msg)) := by
  rw [heard, h]

def next (w : Waits) : WaitAct → Option Waits
  | .net a => do
    let net ← w.net.next a
    some { net := net, waits := w.heard a }
  | .wait name awaited => do
    let net ← w.net.next (.call name awaited.query)
    let wait : Wait := { awaited := awaited, call := (w.net.clients name).waiters.length }
    some { net := net, waits := Function.update w.waits name (w.waits name ++ [wait]) }
  | .resume name j => do
    let wait ← (w.waits name)[j]?
    let wait' ← wait.resume (w.net.clients name)
    some { w with waits := Function.update w.waits name ((w.waits name).set j wait') }

def machine : Machine Waits WaitAct where
  init w := w = {}
  next := next

/-- No number of a call is given to another while it is in use, and the signals for nodes have keys of nodes. -/
def Clean (w : Waits) : WaitAct → Prop
  | .net (.call name _) | .wait name _ =>
    (w.net.clients name).callwaiters ((w.net.clients name).trancounter + 1) = none
  | .net (.serve name) => ∀ msg, (w.net.toServer name).head? = some msg → w.net.server.SignalsNode msg
  | _ => True

/-! ### The queries that have been processed -/

/-- What is remembered of the waits: whose query has been processed, and what has been so at the server since then. -/
structure Record where
  processed : String → Nat → Prop := fun _ _ => False
  due : String → Nat → Prop := fun _ _ => False

/-- The step processes the query of the wait. -/
def Processes (w : Waits) (name : String) (j : Nat) : WaitAct → Prop
  | .net (.serve client) => client = name ∧ ∃ wait msg, (w.waits name)[j]? = some wait ∧
    (w.net.toServer name).head? = some msg ∧ wait.Queries (w.net.clients name) msg
  | _ => False

def note (w : Waits) (a : WaitAct) (r : Record) : Record where
  processed name j := r.processed name j ∨ w.Processes name j a
  due name j := r.due name j ∨ (r.processed name j ∨ w.Processes name j a) ∧
    ∃ w' wait, w.next a = some w' ∧ (w.waits name)[j]? = some wait ∧ w'.net.server.Due wait.awaited

end Waits

/-! ### The numbers in flight -/

section Flight

variable {c : Calls Reply} {up up' : List ClientMessage} {down down' : List ServerMessage} {id : UInt32}

def ClientMessage.asks (id : UInt32) : ClientMessage → Bool
  | .request msgid _ => msgid = id
  | _ => false

def ServerMessage.answers (id : UInt32) : ServerMessage → Bool
  | .reply msgid _ => msgid = id
  | _ => false

/-- How many requests and replies with the number are on their way. -/
def flight (up : List ClientMessage) (down : List ServerMessage) (id : UInt32) : Nat :=
  up.countP (ClientMessage.asks id) + down.countP (ServerMessage.answers id)

private theorem flight_pos_of_request {request : Request} (h : .request id request ∈ up) :
    0 < up.countP (ClientMessage.asks id) :=
  List.countP_pos_iff.2 ⟨_, h, by simp [ClientMessage.asks]⟩

private theorem flight_pos_of_reply {reply : Reply} (h : .reply id reply ∈ down) :
    0 < down.countP (ServerMessage.answers id) :=
  List.countP_pos_iff.2 ⟨_, h, by simp [ServerMessage.answers]⟩

/-- What holds of the calls of a client that has not been terminated. -/
structure Steady (c : Calls Reply) (up : List ClientMessage) (down : List ServerMessage) : Prop where
  entered : c.Entered
  pending : ∀ (i : Nat) (call : WaiterInfo Reply), c.waiters[i]? = some call → call.phase.active = true →
    call.signaled = false → c.callwaiters call.waiterid = some i
  signaled : ∀ (i : Nat) (call : WaiterInfo Reply), c.waiters[i]? = some call → call.signaled = call.msg.isSome ∧
    (call.phase = .returned → call.signaled = true) ∧ call.phase ≠ .threw
  flight : ∀ id, flight up down id ≤ (c.callwaiters id).isSome.toNat

/-- A call that goes on in the loop of `RemoteCall`. -/
theorem Steady.setWaiter {i : Nat} {call : WaiterInfo Reply} (h : Steady c up down) (hi : c.waiters[i]? = some call)
    (hphase : call.phase.active = true) : Steady (c.setWaiter i { call with phase := Calls.afterSend call }) up down := by
  refine ⟨(h.entered.setWaiter hi _).2 (h.entered.afterSend hi), fun k call' hk hactive hsignaled => ?_,
    fun k call' hk => ?_, h.flight⟩
  · rw [Calls.setWaiter_waiters hi] at hk
    split_ifs at hk with heq
    · cases hk
      subst heq
      exact h.pending i call hi hphase hsignaled
    · exact h.pending k call' hk hactive hsignaled
  · rw [Calls.setWaiter_waiters hi] at hk
    split_ifs at hk with heq
    · cases hk
      refine ⟨(h.signaled i call hi).1, fun hreturned => ?_, ?_⟩
      · by_contra hnot
        rw [Calls.afterSend, if_neg hnot] at hreturned
        cases hreturned
      · unfold Calls.afterSend
        split_ifs
        · exact fun heq => by cases heq
        · exact fun heq => by cases heq
    · exact h.signaled k call' hk

private theorem Steady.remoteCall (h : Steady c up down) (hfree : c.callwaiters (c.trancounter + 1) = none)
    (request : Request) :
    Steady c.remoteCall (up ++ [.request (c.trancounter + 1) request]) down := by
  refine ⟨h.entered.remoteCall, fun i call hi hactive hsignaled => ?_, fun i call hi => ?_, fun id => ?_⟩
  · rw [Network.remoteCall_callwaiters hfree]
    rw [Network.remoteCall_waiters, List.getElem?_append] at hi
    split_ifs at hi with hlt
    · have hentry := h.pending i call hi hactive hsignaled
      have hne : call.waiterid ≠ c.trancounter + 1 := by
        intro heq
        rw [heq, hfree] at hentry
        cases hentry
      rw [Function.update_of_ne hne, hentry]
    · obtain ⟨hlt', rfl⟩ := List.getElem?_eq_some_iff.1 hi
      have hi : i = c.waiters.length := by
        rw [List.length_singleton] at hlt'
        omega
      simp [hi]
  · rw [Network.remoteCall_waiters, List.getElem?_append] at hi
    split_ifs at hi with hlt
    · exact h.signaled i call hi
    · obtain ⟨-, rfl⟩ := List.getElem?_eq_some_iff.1 hi
      rw [List.getElem_singleton]
      refine ⟨rfl, fun heq => ?_, fun heq => ?_⟩
      · cases heq
      · cases heq
  · have hold := h.flight id
    rw [Network.remoteCall_callwaiters hfree]
    unfold RemoteContext.flight at hold ⊢
    rw [List.countP_append, List.countP_singleton]
    by_cases heq : id = c.trancounter + 1
    · subst heq
      rw [hfree] at hold
      have hzero := Nat.le_zero.1 hold
      simp [ClientMessage.asks]
      omega
    · have hasks : ClientMessage.asks id (.request (c.trancounter + 1) request) = false := by
        simp [ClientMessage.asks, Ne.symm heq]
      rw [hasks, Function.update_of_ne heq]
      simpa using hold

/-- The call whose reply is dispatched. -/
theorem Steady.dispatchReply {reply : Reply} (h : Steady c up (.reply id reply :: down)) :
    Steady (c.dispatchReply id reply) up down := by
  have hflight (id' : UInt32) : RemoteContext.flight up (.reply id reply :: down) id' =
      RemoteContext.flight up down id' + if id = id' then 1 else 0 := by
    unfold RemoteContext.flight
    rw [List.countP_cons, ← Nat.add_assoc]
    simp [ServerMessage.answers]
  cases hid : c.callwaiters id with
  | none =>
    have hsame : c.dispatchReply id reply = c := by rw [Calls.dispatchReply, hid]
    rw [hsame]
    refine ⟨h.entered, h.pending, h.signaled, fun id' => ?_⟩
    have hold := h.flight id'
    rw [hflight] at hold
    omega
  | some i =>
    have hentered := h.entered.dispatchReply id reply
    rw [Calls.dispatchReply, hid] at hentered ⊢
    refine ⟨hentered, fun k call hk hactive hsignaled => ?_, fun k call hk => ?_, fun id' => ?_⟩
    · dsimp only at hk ⊢
      rw [List.getElem?_modify] at hk
      obtain ⟨call', hcall', rfl⟩ := Option.map_eq_some_iff.1 hk
      by_cases hik : i = k
      · rw [if_pos hik] at hsignaled
        cases hsignaled
      · rw [if_neg hik] at hactive hsignaled ⊢
        have hentry := h.pending k call' hcall' hactive hsignaled
        have hne : call'.waiterid ≠ id := by
          intro heq
          rw [heq, hid] at hentry
          exact hik (Option.some.inj hentry)
        rw [Function.update_of_ne hne, hentry]
    · dsimp only at hk
      rw [List.getElem?_modify] at hk
      obtain ⟨call', hcall', rfl⟩ := Option.map_eq_some_iff.1 hk
      obtain ⟨hmsg, hreturned, hthrew⟩ := h.signaled k call' hcall'
      split_ifs
      · exact ⟨rfl, fun _ => rfl, hthrew⟩
      · exact ⟨hmsg, hreturned, hthrew⟩
    · have hold := h.flight id'
      rw [hflight] at hold
      dsimp only
      by_cases heq : id' = id
      · subst heq
        rw [if_pos rfl, hid] at hold
        rw [Function.update_self]
        simpa using hold
      · rw [Function.update_of_ne heq]
        omega

/-- A step of the client that changes no call that has had no reply, with nothing new on its way. -/
theorem Steady.mono (h : Steady c up down)
    (hflight : ∀ id, RemoteContext.flight up' down' id ≤ RemoteContext.flight up down id) : Steady c up' down' :=
  ⟨h.entered, h.pending, h.signaled, fun id => (hflight id).trans (h.flight id)⟩

/-- A call that has had no reply has not ended. -/
theorem Steady.entry {i : Nat} {call : WaiterInfo Reply} (h : Steady c up down) (hi : c.waiters[i]? = some call)
    (hsignaled : call.signaled = false) : c.callwaiters call.waiterid = some i := by
  obtain ⟨-, hreturned, hthrew⟩ := h.signaled i call hi
  refine h.pending i call hi ?_ hsignaled
  cases hphase : call.phase with
  | sending | waiting => rfl
  | returned =>
    rw [hreturned hphase] at hsignaled
    cases hsignaled
  | threw => exact absurd hphase hthrew

private theorem Steady.flight_le_one (h : Steady c up down) (id : UInt32) : RemoteContext.flight up down id ≤ 1 :=
  (h.flight id).trans (Bool.toNat_le _)

end Flight

/-! ### What the server sends -/

namespace Server

variable {s : Server} {sender : String}

/-- The dispatch of a message sends one reply, to the request that it is, or no reply. -/
theorem dispatch_outbox (h : Typed s) (hopen : s.shutdown = false) (hsent : s.outbox = []) (sender : String)
    (msg : ClientMessage) :
    (∃ id request reply, msg = .request id request ∧
      (final (dispatchMessage sender msg s)).outbox = [(.client sender, .reply id reply)]) ∨
    ∀ item ∈ (final (dispatchMessage sender msg s)).outbox, ∀ id, item.2.answers id = false := by
  have hempty {t : Server} (ht : t.outbox = []) : ∀ item ∈ t.outbox, ∀ id, item.2.answers id = false := by
    rw [ht]
    exact fun item hitem => absurd hitem List.not_mem_nil
  have hone {t : Server} {recipient : Recipient} {m : ServerMessage} (ht : t.outbox = [(recipient, m)])
      (hm : ∀ id, m.answers id = false) : ∀ item ∈ t.outbox, ∀ id, item.2.answers id = false := by
    rw [ht]
    intro item hitem
    rw [List.mem_singleton.1 hitem]
    exact hm
  -- the notices of kernels and of nodes are broadcast and answer no request
  have hkernel (live : Bool) (key : Key) :
      ∀ item ∈ (final (signalKernel live key s)).outbox, ∀ id, item.2.answers id = false := by
    by_cases hkind : s.kindAt key = some .kernelinfo
    · obtain ⟨info, hd, htype⟩ := kindAt_eq.1 hkind
      rw [signalKernel_run hd htype]
      exact hone (congrArg (· ++ _) hsent) fun _ => rfl
    · rw [signalKernel_error hkind]
      exact hempty ((quiet_filled key).1.trans hsent)
  have hnode (mark : Info → Info) (count : UInt32) (key : Key) :
      ∀ item ∈ (final (signalNode mark key { s with numlivenodes := count })).outbox,
        ∀ id, item.2.answers id = false := by
    by_cases hkind : s.kindAt key = some .nodeinfo
    · obtain ⟨info, hd, htype⟩ := kindAt_eq.1 hkind
      have hrun : signalNode mark key { s with numlivenodes := count } = .ok () _ := signalNode_run hd htype
      rw [hrun]
      exact hone (congrArg (· ++ _) hsent) fun _ => rfl
    · have hrun : signalNode mark key { s with numlivenodes := count } = .error _ _ := signalNode_error hkind
      rw [hrun]
      exact hempty ((quiet_filled key).1.trans hsent)
  cases msg with
  | request msgid request =>
    obtain ⟨-, reply, hout⟩ | ⟨-, hout⟩ := dispatch_request h hopen sender msgid request
    · rw [hsent] at hout
      exact .inl ⟨msgid, request, reply, rfl, hout⟩
    · exact .inr (hempty (hout.trans hsent))
  | signalKernelStart key =>
    rw [dispatch_run hopen]
    exact .inr (hkernel true key)
  | signalKernelEnd key =>
    rw [dispatch_run hopen]
    exact .inr (hkernel false key)
  | signalNodeStart key =>
    rw [dispatch_run hopen]
    exact .inr (hnode Info.start (s.numlivenodes + 1) key)
  | signalNodeEnd key =>
    rw [dispatch_run hopen]
    exact .inr (hnode Info.kill (s.numlivenodes - 1) key)
  | connectEndpoints writerkey readerkey qname =>
    rw [dispatch_run hopen]
    dsimp only
    rw [connectEndpoints_run]
    exact .inr (hempty hsent)
  | kernel kernelkey msg =>
    rw [dispatch_run hopen]
    dsimp only
    unfold routeKernelMessage
    rw [bind_ok (datum_eq kernelkey s)]
    exact .inr (hone (congrArg (· ++ _) ((quiet_filled kernelkey).1.trans hsent)) fun _ => rfl)
  | terminate =>
    rw [dispatch_run hopen]
    exact .inr (hone (congrArg (· ++ _) hsent) fun _ => rfl)
  | log msg =>
    rw [dispatch_run hopen]
    exact .inr (hempty hsent)

/-- What a client gets of what the server sends in answer to a message. -/
def mailFor (s : Server) (sender : String) (msg : ClientMessage) (name : String) : List ServerMessage :=
  (final (s.dispatchMessage sender msg)).outbox.filterMap (Network.mail name)

/-- No reply comes without its request. -/
theorem countP_mailFor (h : Typed s) (hopen : s.shutdown = false) (hsent : s.outbox = []) (sender : String)
    (msg : ClientMessage) (name : String) (id : UInt32) : (s.mailFor sender msg name).countP (ServerMessage.answers id) ≤
      if name = sender ∧ msg.asks id = true then 1 else 0 := by
  unfold mailFor
  obtain ⟨id', request, reply, rfl, hout⟩ | hnone := dispatch_outbox h hopen hsent sender msg
  · rw [hout]
    by_cases hname : sender = name
    · simp [Network.mail, hname, ServerMessage.answers, ClientMessage.asks]
    · simp [Network.mail, hname]
  · refine (List.countP_eq_zero.2 fun m hm => ?_).trans_le (Nat.zero_le _)
    obtain ⟨⟨recipient, m'⟩, hitem, hmail⟩ := List.mem_filterMap.1 hm
    have hm' := hnone _ hitem id
    cases recipient with
    | client recipient =>
      rw [Network.mail] at hmail
      split_ifs at hmail
      cases hmail
      exact Bool.not_eq_true _ ▸ hm'
    | everyone =>
      cases hmail
      exact Bool.not_eq_true _ ▸ hm'

end Server

/-! ### One wait -/

section Stages

variable {s s' : Server} {c c' : Calls Reply} {up up' : List ClientMessage} {down down' : List ServerMessage}
  {p q : Prop} {wait wait' : Wait} {msg : ServerMessage} {id : UInt32} {reply : Reply}

/-- A notice for the wait is on its way, or has come. -/
def Wait.Notified (down : List ServerMessage) (wait : Wait) : Prop :=
  ∃ b, wait.awaited.told b = true ∧ (.broadcast b ∈ down ∨ b ∈ wait.messages)

private theorem Wait.Notified.mono (h : wait.Notified down) (hdown : ∀ b, .broadcast b ∈ down → .broadcast b ∈ down') :
    wait.Notified down' := by
  obtain ⟨b, htold, hb⟩ := h
  exact ⟨b, htold, hb.imp_left (hdown b)⟩

private theorem Wait.Notified.hear (h : wait.Notified (msg :: down)) : (wait.hear msg).Notified down := by
  obtain ⟨b, htold, hb⟩ := h
  cases msg with
  | broadcast b' =>
    refine ⟨b, htold, ?_⟩
    rw [List.mem_cons, ServerMessage.broadcast.injEq] at hb
    obtain (rfl | hb) | hb := hb
    · exact .inr (List.mem_append_right _ (List.mem_singleton_self _))
    · exact .inl hb
    · exact .inr (List.mem_append_left _ hb)
  | reply id reply | kernel key msg | terminate =>
    exact ⟨b, htold, hb.imp_left fun hb => (List.mem_cons.1 hb).resolve_left fun heq => by cases heq⟩

/-- How far a wait has come: `p` says that its query has been processed, and `q` that what it waits for has been so since
then. -/
inductive Stage (s : Server) (c : Calls Reply) (up : List ClientMessage) (down : List ServerMessage) (p q : Prop)
    (wait : Wait) : Prop
  | asked (call : WaiterInfo Reply) (hphase : wait.phase = .querying) (hcall : c.waiters[wait.call]? = some call)
    (hsignaled : call.signaled = false) (hup : .request call.waiterid wait.awaited.query ∈ up) (hp : ¬ p) (hq : ¬ q)
  | answering (call : WaiterInfo Reply) (reply : Reply) (hphase : wait.phase = .querying)
    (hcall : c.waiters[wait.call]? = some call) (hsignaled : call.signaled = false)
    (hdown : .reply call.waiterid reply ∈ down) (hp : p)
    (hq : q → wait.awaited.answered reply = true ∨ wait.Notified down)
  | unanswered (call : WaiterInfo Reply) (hphase : wait.phase = .querying) (hcall : c.waiters[wait.call]? = some call)
    (hsignaled : call.signaled = false) (hflight : flight up down call.waiterid = 0) (hp : p)
    (hdud : s.Dud wait.awaited) (hq : ¬ q)
  | replied (call : WaiterInfo Reply) (reply : Reply) (hphase : wait.phase = .querying)
    (hcall : c.waiters[wait.call]? = some call) (hsignaled : call.signaled = true) (hmsg : call.msg = some reply) (hp : p)
    (hq : q → wait.awaited.answered reply = true ∨ wait.Notified down)
  | looping (hphase : wait.phase = .looping ∨ wait.phase = .waiting) (hp : p) (hq : q → wait.Notified down)
  | ended (hphase : wait.phase = .ended)

/-- The client goes on with other things. -/
theorem Stage.mono (h : Stage s c up down p q wait)
    (hcalls : ∀ call, c.waiters[wait.call]? = some call → ∃ call', c'.waiters[wait.call]? = some call' ∧
      call'.waiterid = call.waiterid ∧ call'.signaled = call.signaled ∧ call'.msg = call.msg)
    (hup : ∀ m ∈ up, m ∈ up') (hflight : ∀ call, c.waiters[wait.call]? = some call → call.signaled = false →
      flight up down call.waiterid = 0 → flight up' down call.waiterid = 0) : Stage s c' up' down p q wait := by
  cases h with
  | asked call hphase hcall hsignaled hreq hp hq =>
    obtain ⟨call', hcall', hid, hsignaled', -⟩ := hcalls call hcall
    exact .asked call' hphase hcall' (hsignaled'.trans hsignaled) (hid ▸ hup _ hreq) hp hq
  | answering call reply hphase hcall hsignaled hdown hp hq =>
    obtain ⟨call', hcall', hid, hsignaled', -⟩ := hcalls call hcall
    exact .answering call' reply hphase hcall' (hsignaled'.trans hsignaled) (hid ▸ hdown) hp hq
  | unanswered call hphase hcall hsignaled hzero hp hdud hq =>
    obtain ⟨call', hcall', hid, hsignaled', -⟩ := hcalls call hcall
    exact .unanswered call' hphase hcall' (hsignaled'.trans hsignaled) (hid ▸ hflight call hcall hsignaled hzero) hp hdud
      hq
  | replied call reply hphase hcall hsignaled hmsg hp hq =>
    obtain ⟨call', hcall', -, hsignaled', hmsg'⟩ := hcalls call hcall
    exact .replied call' reply hphase hcall' (hsignaled'.trans hsignaled) (hmsg'.trans hmsg) hp hq
  | looping hphase hp hq => exact .looping hphase hp hq
  | ended hphase => exact .ended hphase

/-- A message that is no reply is dispatched. -/
theorem Stage.hear (h : Stage s c up (msg :: down) p q wait) (hmsg : ∀ id, msg.answers id = false) :
    Stage s c up down p q (wait.hear msg) := by
  have hphase : (wait.hear msg).phase = wait.phase := by cases msg <;> rfl
  have hcall : (wait.hear msg).call = wait.call := by cases msg <;> rfl
  have hawaited : (wait.hear msg).awaited = wait.awaited := by cases msg <;> rfl
  cases h with
  | asked call hp' hc hsignaled hup hp hq =>
    exact .asked call (hphase.trans hp') (hcall ▸ hc) hsignaled (hawaited ▸ hup) hp hq
  | answering call reply hp' hc hsignaled hdown hp hq =>
    refine .answering call reply (hphase.trans hp') (hcall ▸ hc) hsignaled ((List.mem_cons.1 hdown).resolve_left ?_) hp
      fun hdue => (hawaited ▸ hq hdue).imp_right Wait.Notified.hear
    rintro rfl
    have hid := hmsg call.waiterid
    simp [ServerMessage.answers] at hid
  | unanswered call hp' hc hsignaled hflight hp hdud hq =>
    refine .unanswered call (hphase.trans hp') (hcall ▸ hc) hsignaled ?_ hp (hawaited ▸ hdud) hq
    unfold flight at hflight ⊢
    rw [List.countP_cons] at hflight
    omega
  | replied call reply hp' hc hsignaled hm hp hq =>
    exact .replied call reply (hphase.trans hp') (hcall ▸ hc) hsignaled hm hp
      fun hdue => (hawaited ▸ hq hdue).imp_right Wait.Notified.hear
  | looping hp' hp hq => exact .looping (hphase ▸ hp') hp fun hdue => (hq hdue).hear
  | ended hp' => exact .ended (hphase.trans hp')

/-- A reply is filled in at the call with its number and nowhere else. -/
theorem dispatchReply_waiters_of_ne {i : Nat} {call : WaiterInfo Reply} (h : c.Entered) (hi : c.waiters[i]? = some call)
    (hne : call.waiterid = id → call.signaled = true) : (c.dispatchReply id reply).waiters[i]? = some call := by
  unfold Calls.dispatchReply
  cases hid : c.callwaiters id with
  | none => exact hi
  | some k =>
    have hki : k ≠ i := by
      rintro rfl
      obtain ⟨call', hcall', hcallid, hsignaled, -⟩ := h id k hid
      rw [hi] at hcall'
      cases hcall'
      rw [hne hcallid] at hsignaled
      cases hsignaled
    simp [hki, hi]

private theorem Stage.dispatchReply (hsteady : Steady c up (.reply id reply :: down))
    (h : Stage s c up (.reply id reply :: down) p q wait) : Stage s (c.dispatchReply id reply) up down p q wait := by
  have hanswers : (ServerMessage.reply id reply).answers id = true := by simp [ServerMessage.answers]
  have hone := hsteady.flight_le_one id
  unfold flight at hone
  rw [List.countP_cons_of_pos hanswers] at hone
  have hnotified (hn : wait.Notified (.reply id reply :: down)) : wait.Notified down := hn.hear
  cases h with
  | asked call hphase hcall hsignaled hup hp hq =>
    refine .asked call hphase (dispatchReply_waiters_of_ne hsteady.entered hcall ?_) hsignaled hup hp hq
    rintro rfl
    have hpos := flight_pos_of_request hup
    omega
  | answering call reply' hphase hcall hsignaled hdown hp hq =>
    rw [List.mem_cons, ServerMessage.reply.injEq] at hdown
    by_cases hid : call.waiterid = id
    · -- the reply is the one that is dispatched, since there is no other with its number
      have hreply : reply' = reply := by
        refine (hdown.resolve_right fun hdown => ?_).2
        have hpos := flight_pos_of_reply (hid ▸ hdown)
        omega
      subst hreply
      have hentry := hsteady.entry hcall hsignaled
      rw [hid] at hentry
      refine .replied { call with msg := some reply', signaled := true } reply' hphase ?_ rfl rfl hp
        fun hdue => (hq hdue).imp_right hnotified
      unfold Calls.dispatchReply
      rw [hentry]
      simp [hcall]
    · refine .answering call reply' hphase (dispatchReply_waiters_of_ne hsteady.entered hcall fun heq => absurd heq hid)
        hsignaled (hdown.resolve_left fun heq => hid heq.1) hp fun hdue => (hq hdue).imp_right hnotified
  | unanswered call hphase hcall hsignaled hflight hp hdud hq =>
    unfold flight at hflight
    rw [List.countP_cons] at hflight
    refine .unanswered call hphase (dispatchReply_waiters_of_ne hsteady.entered hcall ?_) hsignaled ?_ hp hdud hq
    · rintro rfl
      rw [if_pos hanswers] at hflight
      omega
    · unfold flight
      omega
  | replied call reply' hphase hcall hsignaled hmsg hp hq =>
    exact .replied call reply' hphase (dispatchReply_waiters_of_ne hsteady.entered hcall fun _ => hsignaled) hsignaled hmsg
      hp fun hdue => (hq hdue).imp_right hnotified
  | looping hphase hp hq => exact .looping hphase hp fun hdue => hnotified (hq hdue)
  | ended hphase => exact .ended hphase

/-- The thread of the wait goes on. -/
theorem Stage.resume (hsteady : Steady c up down) (hopen : c.shutdown = false) (h : Stage s c up down p q wait)
    (hr : wait.resume c = some wait') : Stage s c up down p q wait' := by
  -- a thread in `SendMessage` goes on only when its reply is there
  have hquerying {call : WaiterInfo Reply} (hphase : wait.phase = .querying) (hcall : c.waiters[wait.call]? = some call) :
      ∃ reply, call.signaled = true ∧ call.msg = some reply ∧
        wait' = { wait with phase := if wait.awaited.answered reply then .ended else .looping } := by
    obtain ⟨hmsg, hreturned, hthrew⟩ := hsteady.signaled _ call hcall
    unfold Wait.resume at hr
    rw [hphase] at hr
    dsimp only at hr
    rw [hcall] at hr
    cases hcallphase : call.phase with
    | returned =>
      have hsignaled := hreturned hcallphase
      obtain ⟨reply, hreply⟩ := Option.isSome_iff_exists.1 (hmsg ▸ hsignaled)
      simp [hcallphase, hreply] at hr
      exact ⟨reply, hsignaled, hreply, hr.symm⟩
    | threw => exact absurd hcallphase hthrew
    | sending | waiting => simp [hcallphase] at hr
  cases h with
  | asked call hphase hcall hsignaled hup hp hq =>
    obtain ⟨reply, hsignaled', -⟩ := hquerying hphase hcall
    rw [hsignaled] at hsignaled'
    cases hsignaled'
  | answering call reply hphase hcall hsignaled hdown hp hq =>
    obtain ⟨reply', hsignaled', -⟩ := hquerying hphase hcall
    rw [hsignaled] at hsignaled'
    cases hsignaled'
  | unanswered call hphase hcall hsignaled hflight hp hdud hq =>
    obtain ⟨reply, hsignaled', -⟩ := hquerying hphase hcall
    rw [hsignaled] at hsignaled'
    cases hsignaled'
  | replied call reply hphase hcall hsignaled hmsg hp hq =>
    obtain ⟨reply', -, hmsg', rfl⟩ := hquerying hphase hcall
    rw [hmsg] at hmsg'
    cases hmsg'
    by_cases hanswered : wait.awaited.answered reply = true
    · exact .ended (if_pos hanswered)
    · exact .looping (.inl (if_neg hanswered)) hp fun hdue => (hq hdue).resolve_left hanswered
  | looping hphase hp hq =>
    unfold Wait.resume at hr
    rcases hphase with hphase | hphase
    · rw [hphase] at hr
      dsimp only at hr
      cases hmessages : wait.messages with
      | nil =>
        rw [hmessages] at hr
        cases hr
        refine .looping (.inr rfl) hp fun hdue => ?_
        obtain ⟨b, htold, hb⟩ := hq hdue
        exact ⟨b, htold, hmessages ▸ hb⟩
      | cons b rest =>
        rw [hmessages] at hr
        cases hr
        by_cases htold : wait.awaited.told b = true
        · exact .ended (if_pos htold)
        · -- the notice that is taken is another one
          refine .looping (.inl (if_neg htold)) hp fun hdue => ?_
          obtain ⟨b', htold', hb'⟩ := hq hdue
          rw [hmessages, List.mem_cons] at hb'
          refine ⟨b', htold', hb'.imp_right fun hb' => hb'.resolve_left ?_⟩
          rintro rfl
          exact htold htold'
    · rw [hphase] at hr
      -- the thread wakes up and looks at the notices again
      dsimp only at hr
      rw [if_neg (by rw [hopen]; exact Bool.false_ne_true)] at hr
      split_ifs at hr
      cases hr
      exact .looping (.inl rfl) hp fun hdue => hq hdue
  | ended hphase =>
    unfold Wait.resume at hr
    rw [hphase] at hr
    cases hr

/-- The server processes a message that is not the query of the wait. -/
theorem Stage.others {more : List ServerMessage} (h : Stage s c up down p q wait)
    (hup : ∀ call, c.waiters[wait.call]? = some call → call.signaled = false → wait.phase = .querying →
      .request call.waiterid wait.awaited.query ∈ up → .request call.waiterid wait.awaited.query ∈ up')
    (hflight : ∀ id, flight up' (down ++ more) id ≤ flight up down id) (hdud : ∀ e, s.Dud e → s'.Dud e)
    (hdue : ∀ e, s'.Due e → s.Due e ∨ ∃ b, .broadcast b ∈ more ∧ e.told b = true)
    (hknown : p → s.Due wait.awaited → q) :
    Stage s' c up' (down ++ more) p (q ∨ p ∧ s'.Due wait.awaited) wait := by
  have hold (hn : wait.Notified down) : wait.Notified (down ++ more) := hn.mono fun b hb => List.mem_append_left _ hb
  have hnew (hp : p) (hnow : q ∨ p ∧ s'.Due wait.awaited) : q ∨ wait.Notified (down ++ more) := by
    obtain hq | ⟨-, hnow⟩ := hnow
    · exact .inl hq
    · obtain hbefore | ⟨b, hb, htold⟩ := hdue _ hnow
      · exact .inl (hknown hp hbefore)
      · exact .inr ⟨b, htold, .inl (List.mem_append_right _ hb)⟩
  cases h with
  | asked call hphase hcall hsignaled hreq hp hq =>
    exact .asked call hphase hcall hsignaled (hup call hcall hsignaled hphase hreq) hp
      fun hnow => hnow.elim hq fun hnow => hp hnow.1
  | answering call reply hphase hcall hsignaled hdown hp hq =>
    refine .answering call reply hphase hcall hsignaled (List.mem_append_left _ hdown) hp fun hnow => ?_
    obtain hdue | hn := hnew hp hnow
    · exact (hq hdue).imp_right hold
    · exact .inr hn
  | unanswered call hphase hcall hsignaled hzero hp hd hq =>
    refine .unanswered call hphase hcall hsignaled (Nat.le_zero.1 (hzero ▸ hflight call.waiterid)) hp (hdud _ hd) ?_
    exact fun hnow => hnow.elim hq fun hnow => (hdud _ hd).not_due hnow.2
  | replied call reply hphase hcall hsignaled hmsg hp hq =>
    refine .replied call reply hphase hcall hsignaled hmsg hp fun hnow => ?_
    obtain hdue | hn := hnew hp hnow
    · exact (hq hdue).imp_right hold
    · exact .inr hn
  | looping hphase hp hq =>
    refine .looping hphase hp fun hnow => ?_
    obtain hdue | hn := hnew hp hnow
    · exact hold (hq hdue)
    · exact hn
  | ended hphase => exact .ended hphase

/-- The server processes the query of the wait. -/
theorem Stage.processed {name : String} {request : ClientMessage} (hsettled : Network.Settled s) (hnamed : s.Named)
    (hopen : s.shutdown = false) (hsteady : Steady c (request :: up) down) (h : Stage s c (request :: up) down p q wait)
    (hquery : wait.Queries c request) (hdud : ∀ e, s.Dud e → s'.Dud e)
    (hdue : ∀ e, s'.Due e → s.Due e ∨ ∃ b, .broadcast b ∈ s.mailFor name request name ∧ e.told b = true) :
    Stage s' c up (down ++ s.mailFor name request name) True (q ∨ s'.Due wait.awaited) wait := by
  obtain ⟨hphase, call, request', hcall, hsignaled, rfl⟩ := hquery
  have hasks : (ClientMessage.request call.waiterid request').asks call.waiterid = true := by
    simp [ClientMessage.asks]
  have hone := hsteady.flight_le_one call.waiterid
  unfold flight at hone
  rw [List.countP_cons_of_pos hasks] at hone
  cases h with
  | asked call' hphase' hcall' hsignaled' hup hp hq =>
    rw [hcall] at hcall'
    cases hcall'
    -- the request that is processed is the query, since there is no other with its number
    have hrequest : request' = wait.awaited.query := by
      rw [List.mem_cons, ClientMessage.request.injEq] at hup
      refine (hup.resolve_right fun hup => ?_).2.symm
      have hpos := flight_pos_of_request hup
      omega
    subst hrequest
    obtain ⟨reply, hout, hanswered⟩ | ⟨hout, hd⟩ :=
      Server.query_reply hsettled.typed hnamed hopen hsettled.sent name call.waiterid wait.awaited
    · have hmail : s.mailFor name (.request call.waiterid wait.awaited.query) name = [.reply call.waiterid reply] := by
        rw [Server.mailFor, hout]
        simp [Network.mail]
      rw [hmail] at hdue ⊢
      refine .answering call reply hphase hcall hsignaled (List.mem_append_right _ (List.mem_singleton_self _)) trivial
        fun hnow => ?_
      obtain hbefore | ⟨b, hb, -⟩ := hdue _ (hnow.resolve_left hq)
      · exact .inl (hanswered hbefore)
      · cases List.mem_singleton.1 hb
    · have hmail : s.mailFor name (.request call.waiterid wait.awaited.query) name = [] := by
        rw [Server.mailFor, hout]
        rfl
      rw [hmail, List.append_nil]
      refine .unanswered call hphase hcall hsignaled ?_ trivial (hdud _ hd)
        fun hnow => hnow.elim hq (hdud _ hd).not_due
      unfold flight
      omega
  | answering call' reply hphase' hcall' hsignaled' hdown hp hq =>
    rw [hcall] at hcall'
    cases hcall'
    have hpos := flight_pos_of_reply hdown
    omega
  | unanswered call' hphase' hcall' hsignaled' hflight hp hd hq =>
    rw [hcall] at hcall'
    cases hcall'
    unfold flight at hflight
    rw [List.countP_cons_of_pos hasks] at hflight
    omega
  | replied call' reply hphase' hcall' hsignaled' hmsg hp hq =>
    rw [hcall] at hcall'
    cases hcall'
    rw [hsignaled] at hsignaled'
    cases hsignaled'
  | looping hphase' hp hq =>
    rw [hphase] at hphase'
    rcases hphase' with hphase' | hphase'
    · cases hphase'
    · cases hphase'
  | ended hphase' =>
    rw [hphase] at hphase'
    cases hphase'

end Stages

/-! ### The waits of one client -/

section Watching

variable {s s' : Server} {c c' : Calls Reply} {up up' : List ClientMessage} {down : List ServerMessage}
  {waits : List Wait} {p q p' q' : Nat → Prop}

/-- What holds of a client that runs, while the server runs. -/
structure Watched (s : Server) (c : Calls Reply) (up : List ClientMessage) (down : List ServerMessage) (waits : List Wait)
    (p q : Nat → Prop) : Prop where
  steady : Steady c up down
  stage : ∀ (j : Nat) (wait : Wait), waits[j]? = some wait → Stage s c up down (p j) (q j) wait
  known : ∀ (j : Nat) (wait : Wait), waits[j]? = some wait → p j → s.Due wait.awaited → q j
  bound : ∀ j, p j ∨ q j → j < waits.length

private theorem Watched.mono (h : Watched s c up down waits p q) (hsteady : Steady c' up' down)
    (hcalls : ∀ (i : Nat) (call : WaiterInfo Reply), c.waiters[i]? = some call →
      ∃ call', c'.waiters[i]? = some call' ∧ call'.waiterid = call.waiterid ∧ call'.signaled = call.signaled ∧
        call'.msg = call.msg)
    (hup : ∀ m ∈ up, m ∈ up') (hflight : ∀ (i : Nat) (call : WaiterInfo Reply), c.waiters[i]? = some call →
      call.signaled = false → flight up down call.waiterid = 0 → flight up' down call.waiterid = 0) :
    Watched s c' up' down waits p q :=
  ⟨hsteady, fun j wait hj => (h.stage j wait hj).mono (hcalls _) hup (hflight _), h.known, h.bound⟩

private theorem Watched.remoteCall (h : Watched s c up down waits p q) (hfree : c.callwaiters (c.trancounter + 1) = none)
    (request : Request) :
    Watched s c.remoteCall (up ++ [.request (c.trancounter + 1) request]) down waits p q := by
  refine h.mono (h.steady.remoteCall hfree request) (fun i call hi => ⟨call, ?_, rfl, rfl, rfl⟩)
    (fun m hm => List.mem_append_left _ hm) fun i call hi hsignaled hzero => ?_
  · rw [Network.remoteCall_waiters, List.getElem?_append_left (List.getElem?_eq_some_iff.1 hi).1, hi]
  · -- the number is in use, so it is not the new one
    have hentry := h.steady.entry hi hsignaled
    have hne : c.trancounter + 1 ≠ call.waiterid := by
      intro heq
      rw [← heq, hfree] at hentry
      cases hentry
    have hasks : (ClientMessage.request (c.trancounter + 1) request).asks call.waiterid = false := by
      simp [ClientMessage.asks, hne]
    unfold flight at hzero ⊢
    rw [List.countP_append, List.countP_singleton, hasks]
    exact hzero

private theorem Watched.wait (h : Watched s c up down waits p q) (hfree : c.callwaiters (c.trancounter + 1) = none)
    (awaited : Awaited) : Watched s c.remoteCall (up ++ [.request (c.trancounter + 1) awaited.query]) down
      (waits ++ [{ awaited := awaited, call := c.waiters.length }]) p q := by
  have hcall := h.remoteCall hfree awaited.query
  have hnone {j : Nat} (hj : ¬ j < waits.length) : ¬ p j ∧ ¬ q j :=
    ⟨fun hp => hj (h.bound j (.inl hp)), fun hq => hj (h.bound j (.inr hq))⟩
  refine ⟨hcall.steady, fun j wait hj => ?_, fun j wait hj hp => ?_, fun j hj => ?_⟩
  · rw [List.getElem?_append] at hj
    split_ifs at hj with hlt
    · exact hcall.stage j wait hj
    · obtain ⟨-, rfl⟩ := List.getElem?_eq_some_iff.1 hj
      rw [List.getElem_singleton]
      refine .asked { waiterid := c.trancounter + 1 } rfl ?_ rfl ?_ (hnone hlt).1 (hnone hlt).2
      · rw [Network.remoteCall_waiters]
        exact List.getElem?_concat_length
      · exact List.mem_append_right _ (List.mem_singleton_self _)
  · have hlt := h.bound j (.inl hp)
    rw [List.getElem?_append_left hlt] at hj
    exact h.known j wait hj hp
  · rw [List.length_append]
    exact (h.bound j hj).trans_le (Nat.le_add_right _ _)

private theorem Watched.say {msg : ClientMessage} (h : Watched s c up down waits p q) (hmsg : msg.isRequest = false) :
    Watched s c (up ++ [msg]) down waits p q := by
  have hflight (id : UInt32) : flight (up ++ [msg]) down id = flight up down id := by
    have hasks : msg.asks id = false := by
      cases msg with
      | request msgid request => cases hmsg
      | _ => rfl
    unfold flight
    rw [List.countP_append, List.countP_singleton, hasks]
    rfl
  exact h.mono (h.steady.mono fun id => (hflight id).le) (fun i call hi => ⟨call, hi, rfl, rfl, rfl⟩)
    (fun m hm => List.mem_append_left _ hm) fun i call hi hsignaled hzero => (hflight _).trans hzero

private theorem Watched.setWaiter {i : Nat} {call : WaiterInfo Reply} (h : Watched s c up down waits p q)
    (hi : c.waiters[i]? = some call) (hphase : call.phase.active = true) :
    Watched s (c.setWaiter i { call with phase := Calls.afterSend call }) up down waits p q := by
  refine h.mono (h.steady.setWaiter hi hphase) (fun k call' hk => ?_) (fun m hm => hm) fun _ _ _ _ hzero => hzero
  rw [Calls.setWaiter_waiters hi]
  split_ifs with heq
  · subst heq
    rw [hi] at hk
    cases hk
    exact ⟨_, rfl, rfl, rfl, rfl⟩
  · exact ⟨call', hk, rfl, rfl, rfl⟩

private theorem Wait.hear_awaited (msg : ServerMessage) (wait : Wait) : (wait.hear msg).awaited = wait.awaited := by
  cases msg with
  | reply id reply | broadcast b | kernel key msg | terminate => rfl

private theorem Watched.deliver {msg : ServerMessage} (h : Watched s c up (msg :: down) waits p q)
    (hopen : (Network.dispatch c msg).shutdown = false) :
    Watched s (Network.dispatch c msg) up down (waits.map (Wait.hear msg)) p q := by
  have hknown (j : Nat) (wait : Wait) (hj : (waits.map (Wait.hear msg))[j]? = some wait) (hp : p j)
      (hdue : s.Due wait.awaited) : q j := by
    rw [List.getElem?_map] at hj
    obtain ⟨wait', hj', rfl⟩ := Option.map_eq_some_iff.1 hj
    rw [Wait.hear_awaited] at hdue
    exact h.known j wait' hj' hp hdue
  have hbound (j : Nat) (hj : p j ∨ q j) : j < (waits.map (Wait.hear msg)).length := by
    rw [List.length_map]
    exact h.bound j hj
  have htail (hmsg : ∀ id, msg.answers id = false) : Watched s c up down (waits.map (Wait.hear msg)) p q := by
    refine ⟨h.steady.mono fun id => ?_, fun j wait hj => ?_, hknown, hbound⟩
    · unfold flight
      rw [List.countP_cons, hmsg id]
      exact Nat.le_of_eq rfl
    · rw [List.getElem?_map] at hj
      obtain ⟨wait', hj', rfl⟩ := Option.map_eq_some_iff.1 hj
      exact (h.stage j wait' hj').hear hmsg
  cases msg with
  | reply id reply =>
    refine ⟨h.steady.dispatchReply, fun j wait hj => ?_, hknown, hbound⟩
    rw [List.getElem?_map] at hj
    obtain ⟨wait', hj', rfl⟩ := Option.map_eq_some_iff.1 hj
    exact (h.stage j wait' hj').dispatchReply h.steady
  | broadcast b => exact htail fun _ => rfl
  | kernel key msg => exact htail fun _ => rfl
  | terminate => cases hopen

private theorem Wait.resume_awaited {wait wait' : Wait} (hr : wait.resume c = some wait') :
    wait'.awaited = wait.awaited := by
  unfold Wait.resume at hr
  cases hphase : wait.phase with
  | querying =>
    rw [hphase] at hr
    obtain ⟨call, -, hr⟩ := Option.bind_eq_some_iff.1 hr
    split at hr
    · cases hr
      rfl
    · cases hr
      rfl
    · cases hr
  | looping =>
    rw [hphase] at hr
    dsimp only at hr
    split at hr
    · cases hr
      rfl
    · cases hr
      rfl
  | waiting =>
    rw [hphase] at hr
    dsimp only at hr
    split_ifs at hr
    · cases hr
      rfl
    · cases hr
      rfl
  | ended =>
    rw [hphase] at hr
    cases hr

private theorem Watched.resume {j : Nat} {wait wait' : Wait} (h : Watched s c up down waits p q) (hopen : c.shutdown = false)
    (hj : waits[j]? = some wait) (hr : wait.resume c = some wait') : Watched s c up down (waits.set j wait') p q := by
  have hlt := (List.getElem?_eq_some_iff.1 hj).1
  have hset {k : Nat} {wait'' : Wait} (hk : (waits.set j wait')[k]? = some wait'') :
      k = j ∧ wait'' = wait' ∨ waits[k]? = some wait'' := by
    rw [List.getElem?_set] at hk
    split_ifs at hk with heq
    · cases hk
      exact .inl ⟨heq.symm, rfl⟩
    · exact .inr hk
  refine ⟨h.steady, fun k wait'' hk => ?_, fun k wait'' hk hp hdue => ?_, fun k hk => ?_⟩
  · obtain ⟨rfl, rfl⟩ | hk := hset hk
    · exact (h.stage _ wait hj).resume h.steady hopen hr
    · exact h.stage k wait'' hk
  · obtain ⟨rfl, rfl⟩ | hk := hset hk
    · rw [Wait.resume_awaited hr] at hdue
      exact h.known _ wait hj hp hdue
    · exact h.known k wait'' hk hp hdue
  · rw [List.length_set]
    exact h.bound k hk

/-- The server processes a message of a client. -/
theorem Watched.serve {sender name : String} {msg : ClientMessage} (hsettled : Network.Settled s) (hnamed : s.Named)
    (hopen : s.shutdown = false) (hsignal : s.SignalsNode msg) (h : Watched s c up down waits p q)
    (hup : name = sender ∧ up = msg :: up' ∨ name ≠ sender ∧ up = up')
    (hs' : s' = { final (s.dispatchMessage sender msg) with outbox := [] })
    (hp' : ∀ j, p' j ↔ p j ∨ name = sender ∧ ∃ wait, waits[j]? = some wait ∧ wait.Queries c msg)
    (hq' : ∀ j, q' j ↔ q j ∨ p' j ∧ ∃ wait, waits[j]? = some wait ∧ s'.Due wait.awaited) :
    Watched s' c up' (down ++ s.mailFor sender msg name) waits p' q' := by
  obtain ⟨hgrows, hannounces⟩ := Server.dispatch_due hsettled.typed hnamed hopen sender hsignal
  have hdud (e : Awaited) (hd : s.Dud e) : s'.Dud e := by
    rw [hs']
    exact (hgrows.sent []).dud hd
  have hdue (e : Awaited) (hd : s'.Due e) :
      s.Due e ∨ ∃ b, .broadcast b ∈ s.mailFor sender msg name ∧ e.told b = true := by
    rw [hs'] at hd
    refine (hannounces e (Server.due_sent [] hd)).imp_right fun ⟨b, hb, htold⟩ => ?_
    exact ⟨b, List.mem_filterMap.2 ⟨_, hb, rfl⟩, htold⟩
  -- a request is answered once at most, by the message that replaces it
  have hflight (id : UInt32) : flight up' (down ++ s.mailFor sender msg name) id ≤ flight up down id := by
    have hmail := Server.countP_mailFor hsettled.typed hopen hsettled.sent sender msg name id
    unfold flight
    rw [List.countP_append]
    obtain ⟨heq, rfl⟩ | ⟨hne, rfl⟩ := hup
    · rw [List.countP_cons]
      simp only [heq, true_and] at hmail ⊢
      omega
    · rw [if_neg fun hand => hne hand.1] at hmail
      omega
  refine ⟨h.steady.mono hflight, fun j wait hj => ?_, fun j wait hj hp hd => (hq' j).2 (.inr ⟨hp, wait, hj, hd⟩),
    fun j hj => ?_⟩
  · have hwait {P : Wait → Prop} : (∃ wait, waits[j]? = some wait ∧ P wait) ↔ P wait := by
      refine ⟨fun ⟨wait', hj', hP⟩ => ?_, fun hP => ⟨wait, hj, hP⟩⟩
      rw [hj] at hj'
      cases hj'
      exact hP
    have hpj := hp' j
    have hqj := hq' j
    rw [hwait] at hpj hqj
    -- the query of this wait is the one that is answered, or the wait goes on as before
    by_cases hquery : name = sender ∧ wait.Queries c msg
    · have hp : p' j = True := eq_true (hpj.2 (.inr hquery))
      have hq : q' j = (q j ∨ s'.Due wait.awaited) := by
        rw [hp, true_and] at hqj
        exact propext hqj
      obtain ⟨rfl, hquery⟩ := hquery
      obtain ⟨-, rfl⟩ := hup.resolve_right fun hne => hne.1 rfl
      rw [hp, hq]
      exact (h.stage j wait hj).processed hsettled hnamed hopen h.steady hquery hdud hdue
    · have hp : p' j = p j := propext (hpj.trans (or_iff_left hquery))
      have hq : q' j = (q j ∨ p j ∧ s'.Due wait.awaited) := by
        rw [hp] at hqj
        exact propext hqj
      rw [hp, hq]
      refine (h.stage j wait hj).others (fun call hcall hsignaled hphase hmem => ?_) hflight hdud hdue (h.known j wait hj)
      obtain ⟨heq, rfl⟩ | ⟨-, rfl⟩ := hup
      · refine (List.mem_cons.1 hmem).resolve_left fun hmsg => ?_
        exact hquery ⟨heq, hphase, call, _, hcall, hsignaled, hmsg.symm⟩
      · exact hmem
  · obtain hp | hq := hj
    · obtain hp | ⟨-, wait, hj, -⟩ := (hp' j).1 hp
      · exact h.bound j (.inl hp)
      · exact (List.getElem?_eq_some_iff.1 hj).1
    · obtain hq | ⟨-, wait, hj, -⟩ := (hq' j).1 hq
      · exact h.bound j (.inr hq)
      · exact (List.getElem?_eq_some_iff.1 hj).1

end Watching

/-! ### All clients -/

namespace Waits

variable {w w' : Waits} {r : Record} {a : WaitAct} {name : String}

def Watchful (w : Waits) (r : Record) : Prop := w.net.server.shutdown = false → w.net.server.Named ∧
  ∀ name, (w.net.clients name).shutdown = false →
    Watched w.net.server (w.net.clients name) (w.net.toServer name) (w.net.toClient name) (w.waits name)
      (r.processed name) (r.due name)

/-- A step that is not one of the server, and that changes one client. -/
theorem Watchful.keep (h : w.Watchful r) (hn : w.next a = some w') {c : Calls Reply} {up : List ClientMessage}
    {down : List ServerMessage} {waits : List Wait} (hserver : w'.net.server = w.net.server)
    (hclients : w'.net.clients = Function.update w.net.clients name c)
    (hup : w'.net.toServer = Function.update w.net.toServer name up)
    (hdown : w'.net.toClient = Function.update w.net.toClient name down)
    (hwaits : w'.waits = Function.update w.waits name waits) (hnot : ∀ name j, ¬ w.Processes name j a)
    (hone : ∀ p q, c.shutdown = false → (w.net.clients name).shutdown = false ∧
      (Watched w.net.server (w.net.clients name) (w.net.toServer name) (w.net.toClient name) (w.waits name) p q →
        Watched w.net.server c up down waits p q)) : w'.Watchful (note w a r) := by
  intro hs
  rw [hserver] at hs ⊢
  obtain ⟨hnamed, hwatched⟩ := h hs
  refine ⟨hnamed, fun name' hopen => ?_⟩
  -- what the client has seen processed, and what has been so, is as before
  have hnote (hold : (w.net.clients name').shutdown = false) :
      (note w a r).processed name' = r.processed name' ∧ (note w a r).due name' = r.due name' := by
    have hp : (note w a r).processed name' = r.processed name' :=
      funext fun j => propext (or_iff_left (hnot name' j))
    refine ⟨hp, funext fun j => propext (or_iff_left_of_imp ?_)⟩
    rintro ⟨hprocessed, v, wait, hv, hj, hdue⟩
    rw [hn] at hv
    cases hv
    rw [hserver] at hdue
    exact (hwatched name' hold).known j wait hj (hprocessed.resolve_right (hnot name' j)) hdue
  rw [hclients] at hopen ⊢
  rw [hup, hdown, hwaits]
  by_cases heq : name' = name
  · subst heq
    simp only [Function.update_self] at hopen ⊢
    obtain ⟨hold, hkeep⟩ := hone (r.processed name') (r.due name') hopen
    rw [(hnote hold).1, (hnote hold).2]
    exact hkeep (hwatched name' hold)
  · simp only [Function.update_of_ne heq] at hopen ⊢
    rw [(hnote hopen).1, (hnote hopen).2]
    exact hwatched name' hopen

private theorem Watchful.serve (h : w.Watchful r) (hsettled : Network.Settled w.net.server)
    (hclean : w.Clean (.net (.serve name))) (hn : w.next (.net (.serve name)) = some w') :
    w'.Watchful (note w (.net (.serve name)) r) := by
  intro hs
  have hnext := hn
  obtain ⟨n, hnet, hn⟩ := Option.bind_eq_some_iff.1 hn
  cases hn
  rw [Network.next] at hnet
  cases hhead : w.net.toServer name with
  | nil =>
    rw [hhead] at hnet
    cases hnet
  | cons msg rest =>
    rw [hhead] at hnet
    cases hnet
    have hopen : w.net.server.shutdown = false := Network.shutdown_of_dispatchMessage w.net.server msg hs
    obtain ⟨hnamed, hwatched⟩ := h hopen
    have hsignal : w.net.server.SignalsNode msg := hclean msg (by rw [hhead]; rfl)
    have hgrows := (Server.dispatch_due hsettled.typed hnamed hopen name hsignal).1
    refine ⟨(hgrows.sent []).named hnamed, fun name' hc => ?_⟩
    refine (hwatched name' hc).serve hsettled hnamed hopen hsignal ?_ rfl (fun j => ?_) fun j => ?_
    · by_cases heq : name' = name
      · refine .inl ⟨heq, ?_⟩
        subst heq
        have hrest : Function.update w.net.toServer name' rest name' = rest := Function.update_self ..
        exact hhead.trans (congrArg (msg :: ·) hrest.symm)
      · exact .inr ⟨heq, (Function.update_of_ne heq ..).symm⟩
    · refine or_congr_right ⟨?_, ?_⟩
      · rintro ⟨rfl, wait, msg', hj, hmsg', hquery⟩
        rw [hhead] at hmsg'
        cases hmsg'
        exact ⟨rfl, wait, hj, hquery⟩
      · rintro ⟨rfl, wait, hj, hquery⟩
        exact ⟨rfl, wait, msg, hj, by rw [hhead]; rfl, hquery⟩
    · refine or_congr_right (and_congr_right fun _ => ⟨?_, ?_⟩)
      · rintro ⟨v, wait, hv, hj, hdue⟩
        rw [hnext] at hv
        cases hv
        exact ⟨wait, hj, hdue⟩
      · rintro ⟨wait, hj, hdue⟩
        exact ⟨_, wait, hnext, hj, hdue⟩

private theorem Watchful.next (h : w.Watchful r) (hsettled : Network.Settled w.net.server) (hclean : w.Clean a)
    (hn : w.next a = some w') : w'.Watchful (note w a r) := by
  cases a with
  | net a =>
    have hstep := hn
    obtain ⟨n, hnet, hn⟩ := Option.bind_eq_some_iff.1 hn
    cases hn
    cases a with
    -- the request goes to the server, the notices on their way stay
    | call name request =>
      obtain ⟨hopen, rfl⟩ := Network.next_call hnet
      refine h.keep hstep rfl rfl rfl (Function.update_eq_self ..).symm (Function.update_eq_self ..).symm
        (fun _ _ => id) fun p q _ => ⟨hopen, fun hw => hw.remoteCall hclean request⟩
    | say name msg =>
      rw [Network.next] at hnet
      split_ifs at hnet with hmsg
      cases hnet
      refine h.keep hstep rfl (Function.update_eq_self ..).symm rfl (Function.update_eq_self ..).symm
        (Function.update_eq_self ..).symm (fun _ _ => id) fun p q hopen => ⟨hopen, fun hw => hw.say ?_⟩
      exact Bool.eq_false_iff.2 hmsg
    | sent name i =>
      obtain ⟨c, hc, hnet⟩ := Option.bind_eq_some_iff.1 hnet
      cases hnet
      obtain ⟨call, hcall, hc⟩ := Option.bind_eq_some_iff.1 hc
      split_ifs at hc with hphase
      cases hc
      refine h.keep hstep rfl rfl (Function.update_eq_self ..).symm (Function.update_eq_self ..).symm
        (Function.update_eq_self ..).symm (fun _ _ => id) fun p q hopen => ⟨hopen, fun hw => hw.setWaiter hcall ?_⟩
      rw [hphase]
      rfl
    | wake name i =>
      obtain ⟨c, hc, hnet⟩ := Option.bind_eq_some_iff.1 hnet
      cases hnet
      obtain ⟨call, hcall, hc⟩ := Option.bind_eq_some_iff.1 hc
      split_ifs at hc with hphase
      cases hc
      refine h.keep hstep rfl rfl (Function.update_eq_self ..).symm (Function.update_eq_self ..).symm
        (Function.update_eq_self ..).symm (fun _ _ => id) fun p q hopen => ?_
      have hold : (w.net.clients name).shutdown = false := hopen
      have hafter : (w.net.clients name).afterWait call = Calls.afterSend call := by
        rw [Calls.afterWait, hold]
        rfl
      refine ⟨hold, fun hw => ?_⟩
      rw [hafter]
      exact hw.setWaiter hcall (by rw [hphase]; rfl)
    | serve name => exact h.serve hsettled hclean hstep
    | deliver name =>
      rw [Network.next] at hnet
      cases hhead : w.net.toClient name with
      | nil =>
        rw [hhead] at hnet
        cases hnet
      | cons msg rest =>
        rw [hhead] at hnet
        cases hnet
        refine h.keep hstep rfl rfl (Function.update_eq_self ..).symm rfl (heard_deliver hhead) (fun _ _ => id)
          fun p q hopen => ⟨Network.shutdown_of_dispatch hopen, fun hw => ?_⟩
        rw [hhead] at hw
        exact hw.deliver hopen
    | terminate name =>
      cases hnet
      refine h.keep hstep rfl rfl rfl (Function.update_eq_self ..).symm (Function.update_eq_self ..).symm
        (fun _ _ => id) fun p q hopen => ?_
      cases hopen
  | wait name awaited =>
    have hstep := hn
    obtain ⟨n, hnet, hn⟩ := Option.bind_eq_some_iff.1 hn
    cases hn
    obtain ⟨hopen, rfl⟩ := Network.next_call hnet
    exact h.keep hstep rfl rfl rfl (Function.update_eq_self ..).symm rfl (fun _ _ => id)
      fun p q _ => ⟨hopen, fun hw => hw.wait hclean awaited⟩
  | resume name j =>
    have hstep := hn
    obtain ⟨wait, hj, hn⟩ := Option.bind_eq_some_iff.1 hn
    obtain ⟨wait', hr, hn⟩ := Option.bind_eq_some_iff.1 hn
    cases hn
    exact h.keep hstep rfl (Function.update_eq_self ..).symm (Function.update_eq_self ..).symm
      (Function.update_eq_self ..).symm rfl (fun _ _ => id) fun p q hopen => ⟨hopen, fun hw => hw.resume hopen hj hr⟩

private theorem settled_next (h : Network.Settled w.net.server) (hn : w.next a = some w') :
    Network.Settled w'.net.server := by
  cases a with
  | net a =>
    obtain ⟨n, hnet, hn⟩ := Option.bind_eq_some_iff.1 hn
    cases hn
    exact h.next hnet
  | wait name awaited =>
    obtain ⟨n, hnet, hn⟩ := Option.bind_eq_some_iff.1 hn
    cases hn
    exact h.next hnet
  | resume name j =>
    obtain ⟨wait, -, hn⟩ := Option.bind_eq_some_iff.1 hn
    obtain ⟨wait', -, hn⟩ := Option.bind_eq_some_iff.1 hn
    cases hn
    exact h

private theorem watchful_of_reachableBy {x : Waits × Record}
    (h : (machine.recorded note {}).ReachableBy (fun x a => Clean x.1 a) x) : x.1.Watchful x.2 := by
  refine (h.invariant (I := fun x => Network.Settled x.1.net.server ∧ x.1.Watchful x.2) ?_ ?_).2
  · rintro ⟨w, r⟩ ⟨hw, hr⟩
    change w = {} at hw
    change r = {} at hr
    subst hw hr
    have hinit : Network.machine.Reachable {} := .init rfl
    refine ⟨Network.settled_of_reachableBy hinit, fun _ => ⟨⟨?_, ?_⟩, fun name _ => ?_⟩⟩
    · intro name k hk
      cases hk
    · intro name k hk
      cases hk
    · refine ⟨⟨?_, ?_, ?_, fun id => le_refl 0⟩, ?_, ?_, ?_⟩
      · intro id i hi
        cases hi
      · intro i call hi
        cases hi
      · intro i call hi
        cases hi
      · intro j wait hj
        cases hj
      · intro j wait hj
        cases hj
      · rintro j (hj | hj)
        · exact hj.elim
        · exact hj.elim
  · rintro ⟨w, r⟩ a ⟨w', r'⟩ ⟨hsettled, hwatchful⟩ hclean hn
    obtain ⟨hnext, hnote⟩ := Machine.recorded_next hn
    change r' = _ at hnote
    subst hnote
    exact ⟨settled_next hsettled hnext, hwatchful.next hsettled hclean hnext⟩

/-- Nothing is on its way from the client or to it, and none of its threads can go on. -/
structure Quiet (w : Waits) (name : String) : Prop where
  toServer : w.net.toServer name = []
  toClient : w.net.toClient name = []
  calls : ∀ call ∈ (w.net.clients name).waiters,
    call.phase ≠ .sending ∧ (call.phase = .waiting → call.signaled = false)
  waits : ∀ wait ∈ w.waits name, wait.resume (w.net.clients name) = none

/-- Along runs in which the numbers of calls are not given twice and the signals for nodes have keys of nodes, a wait of a
quiet client that has not ended waits for something that is not so, and has not been so since its query was processed. -/
theorem no_wait_lost (w : Waits) (r : Record) :
    (machine.recorded note {}).ReachableBy (fun x a => Clean x.1 a) (w, r) → w.net.server.shutdown = false →
      ∀ name, (w.net.clients name).shutdown = false → w.Quiet name → ∀ (j : Nat) (wait : Wait),
        (w.waits name)[j]? = some wait → wait.phase ≠ .ended →
          ¬ w.net.server.Due wait.awaited ∧ ¬ r.due name j := by
  intro h hs name hopen hquiet j wait hj hended
  obtain ⟨-, hwatched⟩ := watchful_of_reachableBy h hs
  have hw := hwatched name hopen
  have hresume := hquiet.waits wait (List.mem_of_getElem? hj)
  cases hw.stage j wait hj with
  | asked call hphase hcall hsignaled hup hp hq =>
    rw [hquiet.toServer] at hup
    cases hup
  | answering call reply hphase hcall hsignaled hdown hp hq =>
    rw [hquiet.toClient] at hdown
    cases hdown
  | unanswered call hphase hcall hsignaled hflight hp hdud hq => exact ⟨hdud.not_due, hq⟩
  | replied call reply hphase hcall hsignaled hmsg hp hq =>
    -- the call has its reply, so it has returned, and the thread can go on
    obtain ⟨hsending, hwaiting⟩ := hquiet.calls call (List.mem_of_getElem? hcall)
    unfold Wait.resume at hresume
    cases hcallphase : call.phase with
    | sending => exact absurd hcallphase hsending
    | waiting =>
      rw [hwaiting hcallphase] at hsignaled
      cases hsignaled
    | returned => simp [hphase, hcall, hcallphase, hmsg] at hresume
    | threw => exact absurd hcallphase (hw.steady.signaled _ call hcall).2.2
  | looping hphase hp hq =>
    have hmessages : wait.messages = [] := by
      unfold Wait.resume at hresume
      rcases hphase with hphase | hphase
      · rw [hphase] at hresume
        dsimp only at hresume
        split at hresume
        · cases hresume
        · cases hresume
      · simpa [hphase, hopen] using hresume
    have hnot : ¬ r.due name j := by
      intro hdue
      obtain ⟨b, -, hb | hb⟩ := hq hdue
      · rw [hquiet.toClient] at hb
        cases hb
      · rw [hmessages] at hb
        cases hb
    exact ⟨fun hdue => hnot (hw.known j wait hj hp hdue), hnot⟩
  | ended hphase => exact absurd hphase hended

/-- The wait for a node that has not started waits in its loop. -/
theorem no_wait_lost_node : ∃ (w : Waits) (wait : Wait), w.Quiet "client" ∧ (w.waits "client")[0]? = some wait ∧
    wait.phase = .waiting ∧ ¬ w.net.server.Due (.nodeStart "node") := by
  obtain ⟨w₁, h₁⟩ : ∃ w, next {} (.wait "client" (.nodeStart "node")) = some w := ⟨_, rfl⟩
  obtain ⟨w₂, h₂⟩ : ∃ w, w₁.next (.net (.serve "client")) = some w := by
    cases h₁
    exact ⟨_, rfl⟩
  obtain ⟨w₃, h₃⟩ : ∃ w, w₂.next (.net (.deliver "client")) = some w := by
    cases h₁
    cases h₂
    exact ⟨_, rfl⟩
  obtain ⟨w₄, h₄⟩ : ∃ w, w₃.next (.net (.sent "client" 0)) = some w := by
    cases h₁
    cases h₂
    cases h₃
    exact ⟨_, rfl⟩
  obtain ⟨w₅, h₅⟩ : ∃ w, w₄.next (.resume "client" 0) = some w := by
    cases h₁
    cases h₂
    cases h₃
    cases h₄
    exact ⟨_, rfl⟩
  obtain ⟨w, h₆⟩ : ∃ w, w₅.next (.resume "client" 0) = some w := by
    cases h₁
    cases h₂
    cases h₃
    cases h₄
    cases h₅
    exact ⟨_, rfl⟩
  have hserve : w₁.Clean (.net (.serve "client")) := by
    cases h₁
    intro msg hmsg
    cases hmsg
    trivial
  -- the steps of the run, each with its condition
  have hwait : machine.ReachableBy Clean w₁ := .step (l := .wait "client" (.nodeStart "node")) (.init rfl) rfl h₁
  have hrun₂ : machine.ReachableBy Clean w₂ := .step hwait hserve h₂
  have hrun₃ : machine.ReachableBy Clean w₃ := .step (l := .net (.deliver "client")) hrun₂ trivial h₃
  have hrun₄ : machine.ReachableBy Clean w₄ := .step (l := .net (.sent "client" 0)) hrun₃ trivial h₄
  have hrun₅ : machine.ReachableBy Clean w₅ := .step (l := .resume "client" 0) hrun₄ trivial h₅
  have hrun : machine.ReachableBy Clean w := .step (l := .resume "client" 0) hrun₅ trivial h₆
  obtain ⟨r, hrecorded⟩ : ∃ r, (machine.recorded note {}).ReachableBy (fun x a => Clean x.1 a) (w, r) :=
    hrun.exists_recorded
  obtain ⟨hs, hopen, hquiet, hj⟩ : w.net.server.shutdown = false ∧ (w.net.clients "client").shutdown = false ∧
      w.Quiet "client" ∧
        (w.waits "client")[0]? = some { awaited := .nodeStart "node", call := 0, phase := .waiting } := by
    cases h₁
    cases h₂
    cases h₃
    cases h₄
    cases h₅
    cases h₆
    exact ⟨rfl, rfl, ⟨rfl, rfl, by decide, by decide⟩, rfl⟩
  exact ⟨w, _, hquiet, hj, rfl, (no_wait_lost w r hrecorded hs "client" hopen hquiet 0 _ hj (by decide)).1⟩

/-- One client starts a node, another waits for all nodes to end, and the first signals the end of a key that no node
has. -/
def wrongKey : List WaitAct :=
  [.net (.call "first" (.createNodeKey 0 "node")), .net (.serve "first"), .net (.deliver "first"), .net (.sent "first" 0),
    .net (.say "first" (.signalNodeStart 1)), .net (.serve "first"), .net (.deliver "first"), .net (.deliver "second"),
    .wait "second" .allNodeEnd, .net (.serve "second"), .net (.deliver "second"), .net (.sent "second" 0),
    .resume "second" 0, .resume "second" 0, .net (.say "first" (.signalNodeEnd 2)), .net (.serve "first")]

/-- The second client waits for all nodes to end, and the server counts no live node. -/
theorem allNodeEnd_lost : ∃ (w : Waits) (wait : Wait), machine.Reachable w ∧ w.net.server.shutdown = false ∧
    w.Quiet "first" ∧ w.Quiet "second" ∧ (w.net.clients "second").shutdown = false ∧
    (w.waits "second")[0]? = some wait ∧ wait.phase = .waiting ∧ wait.awaited = .allNodeEnd ∧
    w.net.server.Due .allNodeEnd := by
  obtain ⟨w, hw⟩ : ∃ w, machine.runBy (fun _ _ => True) {} wrongKey = some w := ⟨_, rfl⟩
  refine ⟨w, { awaited := .allNodeEnd, call := 0, phase := .waiting }, .of_runBy (.init rfl) hw, ?_⟩
  cases hw
  exact ⟨rfl, ⟨rfl, rfl, by decide, by decide⟩, ⟨rfl, rfl, by decide, by decide⟩, rfl, rfl, rfl, rfl, rfl⟩

end Waits

end ProcessNetwork.RemoteContext
