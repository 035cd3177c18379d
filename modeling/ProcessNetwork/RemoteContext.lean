import ProcessNetwork.ServerReplies
import ProcessNetwork.RemoteCalls

/-!
# Clients and their server

Any number of clients, each with any number of calls under way, joined to one server by a channel in each direction.  The
dispatch of a request sends one reply, to the client that asked, exactly when it finds what it looks for; and along runs
whose requests all do, a call that waits has its request or its reply on the way (`every_call_answered_iff`).
-/

namespace ProcessNetwork.RemoteContext

open Exceptions
open Registry (Key Stop Side)

/-- The clients are known to the server by their names. -/
structure Network where
  server : Server := {}
  clients : String → Calls Reply := fun _ => {}
  toServer : String → List ClientMessage := fun _ => []
  toClient : String → List ServerMessage := fun _ => []

inductive NetworkAct
  /-- `RemoteCall`, with the message that it sends. -/
  | call (client : String) (request : Request)
  /-- A message without a `msgid`. -/
  | say (client : String) (msg : ClientMessage)
  /-- `SendMessage` returns in a call. -/
  | sent (client : String) (i : Nat)
  /-- A call comes back from its wait. -/
  | wake (client : String) (i : Nat)
  /-- The server dispatches the next message of a client. -/
  | serve (client : String)
  /-- A client dispatches the next message of the server. -/
  | deliver (client : String)
  /-- `Terminate` of a client. -/
  | terminate (client : String)

def ClientMessage.isRequest : ClientMessage → Bool
  | request .. => true
  | _ => false

namespace Network

variable {n n' : Network} {a : NetworkAct} {name : String}

def setClient (name : String) (c : Calls Reply) (n : Network) : Network :=
  { n with clients := Function.update n.clients name c }

def post (name : String) (msg : ClientMessage) (n : Network) : Network :=
  { n with toServer := Function.update n.toServer name (n.toServer name ++ [msg]) }

/-- What of a message that the server sends goes to this client. -/
def mail (name : String) : Recipient × ServerMessage → Option ServerMessage
  | (.client recipient, msg) => if recipient = name then some msg else none
  | (.everyone, msg) => some msg

/-- The server has become `s`, with its messages on their way. -/
def served (s : Server) (n : Network) : Network :=
  { n with server := { s with outbox := [] }, toClient := fun name => n.toClient name ++ s.outbox.filterMap (mail name) }

/-- `DispatchMessage` of a client, as far as its calls go. -/
def dispatch (c : Calls Reply) : ServerMessage → Calls Reply
  | .reply msgid reply => c.dispatchReply msgid reply
  | .broadcast _ | .kernel .. => c
  | .terminate => { c with shutdown := true }

def next (n : Network) : NetworkAct → Option Network
  | .call name request => do
    let c ← (n.clients name).next .call
    some ((n.setClient name c).post name (.request c.trancounter request))
  | .say name msg => if msg.isRequest then none else some (n.post name msg)
  | .sent name i => do some (n.setClient name (← (n.clients name).next (.sent i)))
  | .wake name i => do some (n.setClient name (← (n.clients name).next (.wake i)))
  | .serve name =>
    match n.toServer name with
    | [] => none
    | msg :: rest => some (served (final (n.server.dispatchMessage name msg))
        { n with toServer := Function.update n.toServer name rest })
  | .deliver name =>
    match n.toClient name with
    | [] => none
    | msg :: rest => some ({ n with toClient := Function.update n.toClient name rest }.setClient name
        (dispatch (n.clients name) msg))
  | .terminate name => some ((n.setClient name { n.clients name with shutdown := true }).post name .terminate)

/-- Any number of clients and their server. -/
def machine : Machine Network NetworkAct where
  init n := n = {}
  next := next

/-- The number of a call has no entry, and the request that is served finds what it looks for. -/
def Clean (n : Network) : NetworkAct → Prop
  | .call name _ => (n.clients name).callwaiters ((n.clients name).trancounter + 1) = none
  | .serve name => ∀ msgid request, (n.toServer name).head? = some (.request msgid request) → n.server.Answered request
  | _ => True

/-! ### The server -/

/-- Between two messages nothing is left to send. -/
structure Settled (s : Server) : Prop where
  typed : s.Typed
  sent : s.outbox = []

private theorem Settled.served (h : Settled n.server) (name : String) (msg : ClientMessage) (m : Network) :
    Settled (Network.served (final (n.server.dispatchMessage name msg)) m).server where
  typed := (Server.dispatch_typed h.typed name msg).1.congr rfl rfl (le_refl _)
  sent := rfl

theorem Settled.next (h : Settled n.server) (hn : n.next a = some n') : Settled n'.server := by
  cases a with
  | call name request | sent name i | wake name i =>
    obtain ⟨c, -, hn⟩ := Option.bind_eq_some_iff.1 hn
    cases hn
    exact h
  | say name msg =>
    rw [Network.next] at hn
    split_ifs at hn
    cases hn
    exact h
  | serve name =>
    rw [Network.next] at hn
    split at hn
    · cases hn
    · cases hn
      exact h.served name _ _
  | deliver name =>
    rw [Network.next] at hn
    split at hn
    · cases hn
    · cases hn
      exact h
  | terminate name =>
    cases hn
    exact h

theorem settled_of_reachableBy {ok : Network → NetworkAct → Prop} (h : machine.ReachableBy ok n) : Settled n.server := by
  refine h.invariant (I := fun n => Settled n.server) (fun n hn => ?_) fun n a n' hsettled _ hn => hsettled.next hn
  rw [hn]
  refine ⟨⟨fun k d name ep hk => ?_, fun name k hk => ?_, fun k hk => ?_⟩, rfl⟩
  · cases hk
  · cases hk
  · exact absurd rfl hk

/-! ### A client and its channels -/

section Channels

variable {c : Calls Reply} {up up' : List ClientMessage} {down down' : List ServerMessage} {id : UInt32}

/-- The request with this number is on its way, or the reply is. -/
def Carried (up : List ClientMessage) (down : List ServerMessage) (id : UInt32) : Prop :=
  (∃ request, .request id request ∈ up) ∨ ∃ reply, .reply id reply ∈ down

/-- Every call that has had no reply is in the table, and every entry of the table is carried by the channels. -/
structure Connected (c : Calls Reply) (up : List ClientMessage) (down : List ServerMessage) : Prop where
  entered : c.Entered
  pending : ∀ i w, c.waiters[i]? = some w → w.phase.active = true → w.signaled = false →
    c.callwaiters w.waiterid = some i
  carried : ∀ id i, c.callwaiters id = some i → Carried up down id

private theorem Connected.mono (h : Connected c up down)
    (hcarried : ∀ id, (c.callwaiters id).isSome → Carried up down id → Carried up' down' id) :
    Connected c up' down' where
  entered := h.entered
  pending := h.pending
  carried id i hi := hcarried id (by rw [hi]; rfl) (h.carried id i hi)

private theorem Carried.append (h : Carried up down id) (more : List ClientMessage) (more' : List ServerMessage) :
    Carried (up ++ more) (down ++ more') id := by
  obtain ⟨request, hmem⟩ | ⟨reply, hmem⟩ := h
  · exact .inl ⟨request, List.mem_append_left _ hmem⟩
  · exact .inr ⟨reply, List.mem_append_left _ hmem⟩

theorem remoteCall_callwaiters (hfree : c.callwaiters (c.trancounter + 1) = none) : c.remoteCall.callwaiters =
    Function.update c.callwaiters (c.trancounter + 1) (some c.waiters.length) := by
  rw [Calls.remoteCall, Calls.addWaiter, if_neg (by rw [hfree]; exact Bool.false_ne_true)]

theorem remoteCall_waiters (c : Calls Reply) :
    c.remoteCall.waiters = c.waiters ++ [{ waiterid := c.trancounter + 1 }] := by
  unfold Calls.remoteCall Calls.addWaiter
  split_ifs
  · rfl
  · rfl

private theorem remoteCall_trancounter (c : Calls Reply) : c.remoteCall.trancounter = c.trancounter + 1 := by
  unfold Calls.remoteCall Calls.addWaiter
  split_ifs
  · rfl
  · rfl

private theorem Connected.remoteCall (h : Connected c up down) (hfree : c.callwaiters (c.trancounter + 1) = none)
    (request : Request) : Connected c.remoteCall (up ++ [.request (c.trancounter + 1) request]) down := by
  refine ⟨h.entered.remoteCall, fun i w hw hphase hsignaled => ?_, fun id i hi => ?_⟩
  · rw [remoteCall_callwaiters hfree]
    rw [remoteCall_waiters, List.getElem?_append] at hw
    split_ifs at hw with hlt
    · have hentry := h.pending i w hw hphase hsignaled
      have hne : w.waiterid ≠ c.trancounter + 1 := by
        intro heq
        rw [heq, hfree] at hentry
        cases hentry
      rw [Function.update_of_ne hne, hentry]
    · obtain ⟨hlt', rfl⟩ := List.getElem?_eq_some_iff.1 hw
      have hi : i = c.waiters.length := by
        rw [List.length_singleton] at hlt'
        omega
      simp [hi]
  · rw [remoteCall_callwaiters hfree] at hi
    by_cases heq : id = c.trancounter + 1
    · rw [heq]
      exact .inl ⟨request, List.mem_append_right _ (List.mem_singleton_self _)⟩
    · rw [Function.update_of_ne heq] at hi
      have hcarried := (h.carried id i hi).append [.request (c.trancounter + 1) request] []
      rwa [List.append_nil] at hcarried

/-- A call that goes on in the loop of `RemoteCall`. -/
theorem Connected.setWaiter {i : Nat} {w : WaiterInfo Reply} (h : Connected c up down) (hi : c.waiters[i]? = some w)
    (hphase : w.phase.active = true) : Connected (c.setWaiter i { w with phase := Calls.afterSend w }) up down := by
  refine ⟨(h.entered.setWaiter hi _).2 (h.entered.afterSend hi), fun j w' hj hactive hsignaled => ?_, h.carried⟩
  rw [Calls.setWaiter_waiters hi] at hj
  split_ifs at hj with heq
  · cases hj
    subst heq
    exact h.pending i w hi hphase hsignaled
  · exact h.pending j w' hj hactive hsignaled

/-- The reply at the head of the channel is dispatched. -/
theorem Connected.dispatchReply {reply : Reply} (h : Connected c up (.reply id reply :: down)) :
    Connected (c.dispatchReply id reply) up down := by
  have hrest {id' : UInt32} (hne : id' ≠ id) (hcarried : Carried up (.reply id reply :: down) id') :
      Carried up down id' := by
    obtain hup | ⟨reply', hmem⟩ := hcarried
    · exact .inl hup
    · rw [List.mem_cons] at hmem
      refine .inr ⟨reply', hmem.resolve_left fun heq => ?_⟩
      cases heq
      exact hne rfl
  cases hid : c.callwaiters id with
  | none =>
    have hsame : c.dispatchReply id reply = c := by rw [Calls.dispatchReply, hid]
    rw [hsame]
    refine h.mono fun id' hsome => hrest ?_
    rintro rfl
    rw [hid] at hsome
    cases hsome
  | some i =>
    have hentered := h.entered.dispatchReply id reply
    rw [Calls.dispatchReply, hid] at hentered ⊢
    refine ⟨hentered, fun j w hj hphase hsignaled => ?_, fun id' j hj => ?_⟩
    · dsimp only at hj ⊢
      rw [List.getElem?_modify] at hj
      obtain ⟨w', hw', rfl⟩ := Option.map_eq_some_iff.1 hj
      by_cases hij : i = j
      · rw [if_pos hij] at hsignaled
        cases hsignaled
      · rw [if_neg hij] at hphase hsignaled ⊢
        have hentry := h.pending j w' hw' hphase hsignaled
        have hne : w'.waiterid ≠ id := by
          intro heq
          rw [heq, hid] at hentry
          exact hij (Option.some.inj hentry)
        rw [Function.update_of_ne hne, hentry]
    · dsimp only at hj
      have hne : id' ≠ id := by
        rintro rfl
        rw [Function.update_self] at hj
        cases hj
      rw [Function.update_of_ne hne] at hj
      exact hrest hne (h.carried id' j hj)

/-- Any other message at the head of the channel. -/
theorem Connected.tail {msg : ServerMessage} (h : Connected c up (msg :: down))
    (hmsg : ∀ id reply, msg ≠ .reply id reply) : Connected c up down := by
  refine h.mono fun id _ hcarried => ?_
  obtain hup | ⟨reply, hmem⟩ := hcarried
  · exact .inl hup
  · rw [List.mem_cons] at hmem
    exact .inr ⟨reply, hmem.resolve_left fun heq => hmsg id reply heq.symm⟩

private theorem Connected.dispatch {msg : ServerMessage} (h : Connected c up (msg :: down))
    (hopen : (Network.dispatch c msg).shutdown = false) : Connected (Network.dispatch c msg) up down := by
  cases msg with
  | reply id reply => exact h.dispatchReply
  | broadcast msg => exact h.tail fun _ _ heq => by cases heq
  | kernel key msg => exact h.tail fun _ _ heq => by cases heq
  | terminate => cases hopen

end Channels

/-! ### All clients -/

/-- While the server runs, every client that runs is joined to it. -/
def Joined (n : Network) : Prop := n.server.shutdown = false → ∀ name, (n.clients name).shutdown = false →
  Connected (n.clients name) (n.toServer name) (n.toClient name)

/-- One client changes, and with it what it has sent and what it has received. -/
theorem Joined.setClient (h : n.Joined) {c : Calls Reply} {up : List ClientMessage} {down : List ServerMessage}
    (hserver : n'.server = n.server) (hclients : n'.clients = Function.update n.clients name c)
    (hup : n'.toServer = Function.update n.toServer name up) (hdown : n'.toClient = Function.update n.toClient name down)
    (hname : n.server.shutdown = false → c.shutdown = false → Connected c up down) : n'.Joined := by
  intro hs name'
  rw [hserver] at hs
  rw [hclients, hup, hdown]
  by_cases heq : name' = name
  · subst heq
    simp only [Function.update_self]
    exact hname hs
  · simp only [Function.update_of_ne heq]
    exact h hs name'

theorem shutdown_of_dispatchMessage (s : Server) (msg : ClientMessage)
    (h : (final (s.dispatchMessage name msg)).shutdown = false) : s.shutdown = false := by
  rcases Bool.eq_false_or_eq_true s.shutdown with hs | hs
  · have hrun : s.dispatchMessage name msg = .ok () s := by
      unfold Server.dispatchMessage
      rw [bind_ok get_run, hs]
      rfl
    rwa [hrun] at h
  · exact hs

/-- The server takes a message that is no request, or answers the request. -/
theorem Joined.serve (h : n.Joined) (hsettled : Settled n.server) {msg : ClientMessage} {rest : List ClientMessage}
    (hmsg : n.toServer name = msg :: rest) (hclean : n.Clean (.serve name)) :
    (served (final (n.server.dispatchMessage name msg))
      { n with toServer := Function.update n.toServer name rest }).Joined := by
  intro hs name' hc
  have hopen : n.server.shutdown = false := shutdown_of_dispatchMessage n.server msg hs
  have hold := h hopen name' hc
  dsimp only [served]
  by_cases heq : name' = name
  · subst heq
    rw [hmsg] at hold
    rw [Function.update_self]
    refine hold.mono fun id _ hcarried => ?_
    obtain ⟨request, hmem⟩ | ⟨reply, hmem⟩ := hcarried
    · rw [List.mem_cons] at hmem
      rcases hmem with rfl | hmem
      · -- the request that is served: its reply is on its way from now on
        have hanswered : n.server.Answered request := hclean id request (by rw [hmsg]; rfl)
        obtain ⟨-, reply, hout⟩ | ⟨hnot, -⟩ := Server.dispatch_request hsettled.typed hopen name' id request
        · refine .inr ⟨reply, List.mem_append_right _ ?_⟩
          rw [hout, hsettled.sent]
          simp [mail]
        · exact absurd hanswered hnot
      · exact .inl ⟨request, hmem⟩
    · exact .inr ⟨reply, List.mem_append_left _ hmem⟩
  · rw [Function.update_of_ne heq]
    refine hold.mono fun id _ hcarried => ?_
    have happend := hcarried.append [] ((final (n.server.dispatchMessage name msg)).outbox.filterMap (mail name'))
    rwa [List.append_nil] at happend

theorem shutdown_of_dispatch {c : Calls Reply} {msg : ServerMessage} (h : (dispatch c msg).shutdown = false) :
    c.shutdown = false := by
  cases msg with
  | reply id reply =>
    rw [dispatch, Calls.dispatchReply] at h
    split at h
    · exact h
    · exact h
  | broadcast msg => exact h
  | kernel key msg => exact h
  | terminate => cases h

/-- What a call changes of the network. -/
theorem next_call {request : Request} (hn : n.next (.call name request) = some n') :
    (n.clients name).shutdown = false ∧ n' = (n.setClient name (n.clients name).remoteCall).post name
      (.request ((n.clients name).trancounter + 1) request) := by
  obtain ⟨c, hc, hn⟩ := Option.bind_eq_some_iff.1 hn
  cases hn
  rw [Calls.next] at hc
  split_ifs at hc with hopen
  cases hc
  rw [remoteCall_trancounter]
  exact ⟨Bool.eq_false_iff.2 hopen, rfl⟩

private theorem Joined.next (h : n.Joined) (hsettled : Settled n.server) (hclean : n.Clean a) (hn : n.next a = some n') :
    n'.Joined := by
  cases a with
  | call name request =>
    obtain ⟨hopen, rfl⟩ := next_call hn
    refine h.setClient rfl rfl rfl (Function.update_eq_self ..).symm fun hs _ => ?_
    exact (h hs name hopen).remoteCall hclean request
  | say name msg =>
    rw [Network.next] at hn
    split_ifs at hn
    cases hn
    refine h.setClient rfl (Function.update_eq_self ..).symm rfl (Function.update_eq_self ..).symm fun hs hc => ?_
    refine (h hs name hc).mono fun id _ hcarried => ?_
    have happend := hcarried.append [msg] []
    rwa [List.append_nil] at happend
  | sent name i =>
    obtain ⟨c, hc, hn⟩ := Option.bind_eq_some_iff.1 hn
    cases hn
    obtain ⟨w, hw, hc⟩ := Option.bind_eq_some_iff.1 hc
    split_ifs at hc with hphase
    cases hc
    refine h.setClient rfl rfl (Function.update_eq_self ..).symm (Function.update_eq_self ..).symm fun hs hc => ?_
    exact (h hs name hc).setWaiter hw (by rw [hphase]; rfl)
  | wake name i =>
    obtain ⟨c, hc, hn⟩ := Option.bind_eq_some_iff.1 hn
    cases hn
    obtain ⟨w, hw, hc⟩ := Option.bind_eq_some_iff.1 hc
    split_ifs at hc with hphase
    cases hc
    refine h.setClient rfl rfl (Function.update_eq_self ..).symm (Function.update_eq_self ..).symm fun hs hc => ?_
    -- a thread that wakes up while the context is open waits for its reply, if it is not there
    have hopen : (n.clients name).shutdown = false := hc
    have hafter : (n.clients name).afterWait w = Calls.afterSend w := by
      rw [Calls.afterWait, hopen]
      rfl
    rw [hafter]
    exact (h hs name hopen).setWaiter hw (by rw [hphase]; rfl)
  | serve name =>
    rw [Network.next] at hn
    split at hn
    · cases hn
    · rename_i msg rest hmsg
      cases hn
      exact h.serve hsettled hmsg hclean
  | deliver name =>
    rw [Network.next] at hn
    split at hn
    · cases hn
    · rename_i msg rest hmsg
      cases hn
      refine h.setClient rfl rfl (Function.update_eq_self ..).symm rfl fun hs hc => ?_
      have hold := h hs name (shutdown_of_dispatch hc)
      rw [hmsg] at hold
      exact hold.dispatch hc
  | terminate name =>
    cases hn
    refine h.setClient rfl rfl rfl (Function.update_eq_self ..).symm fun _ hc => ?_
    cases hc

private theorem joined_of_reachableBy (h : machine.ReachableBy Clean n) : n.Joined := by
  refine h.invariant_of (fun n hn => settled_of_reachableBy hn) (fun n hn => ?_)
    fun n a n' hsettled hjoined hclean hn => hjoined.next hsettled hclean hn
  rw [hn]
  intro _ name _
  refine ⟨fun id i hi => ?_, fun i w hw => ?_, fun id i hi => ?_⟩
  · cases hi
  · cases hw
  · cases hi

/-- What the dispatch of a request sends. -/
def repliesTo (s : Server) (sender : String) (msgid : UInt32) (request : Request) : List (Recipient × ServerMessage) :=
  (final (s.dispatchMessage sender (.request msgid request))).outbox

/-- A request is answered by one reply with its number, to its sender and to nobody else, exactly when it finds what it
looks for, and otherwise by nothing; and along runs whose requests all find it, a call that has had no reply has its request
or its reply on the way. -/
theorem every_call_answered_iff (n : Network) :
    (machine.Reachable n → n.server.shutdown = false → ∀ sender msgid request,
      ((∃ reply, repliesTo n.server sender msgid request = [(.client sender, .reply msgid reply)]) ↔
        n.server.Answered request) ∧ (¬ n.server.Answered request → repliesTo n.server sender msgid request = [])) ∧
    (machine.ReachableBy Clean n → n.server.shutdown = false → ∀ name, (n.clients name).shutdown = false →
      ∀ (i : Nat) (w : WaiterInfo Reply), (n.clients name).waiters[i]? = some w → w.phase = .waiting →
        w.signaled = true ∨ Carried (n.toServer name) (n.toClient name) w.waiterid) := by
  constructor
  · intro h hs sender msgid request
    have hsettled := settled_of_reachableBy h
    unfold repliesTo
    obtain ⟨hanswered, reply, hout⟩ | ⟨hnot, hout⟩ := Server.dispatch_request hsettled.typed hs sender msgid request
    · rw [hsettled.sent] at hout
      exact ⟨iff_of_true ⟨reply, hout⟩ hanswered, fun hnot => absurd hanswered hnot⟩
    · rw [hsettled.sent] at hout
      rw [hout]
      refine ⟨iff_of_false ?_ hnot, fun _ => rfl⟩
      rintro ⟨reply, heq⟩
      cases heq
  · intro h hs name hc i w hw hphase
    have hconnected := joined_of_reachableBy h hs name hc
    rcases Bool.eq_false_or_eq_true w.signaled with hsignaled | hsignaled
    · exact .inl hsignaled
    · exact .inr (hconnected.carried _ i (hconnected.pending i w hw (by rw [hphase]; rfl) hsignaled))

/-- The call of a client waits while its request is on its way, and the request will be answered. -/
theorem every_call_answered_iff_setup : ∃ n : Network,
    (∃ reply, repliesTo n.server "client" 1 (.setupKernel "kernel" "host" "5000") =
      [(.client "client", .reply 1 reply)]) ∧
    (n.clients "client").waiters[0]? = some { waiterid := 1, phase := .waiting } ∧
    Carried (n.toServer "client") (n.toClient "client") 1 := by
  obtain ⟨m, hm⟩ : ∃ m, Network.next {} (.call "client" (.setupKernel "kernel" "host" "5000")) = some m := ⟨_, rfl⟩
  obtain ⟨n, hn⟩ : ∃ n, m.next (.sent "client" 0) = some n := by
    cases hm
    exact ⟨_, rfl⟩
  have hfree : Clean {} (.call "client" (.setupKernel "kernel" "host" "5000")) := rfl
  have hcall : machine.ReachableBy Clean m := .step (.init rfl) hfree hm
  have hrun : machine.ReachableBy Clean n := .step (l := .sent "client" 0) hcall trivial hn
  cases hm
  cases hn
  have hwait := (every_call_answered_iff _).2 hrun rfl "client" rfl 0 _ rfl rfl
  refine ⟨_, ?_, rfl, hwait.resolve_left Bool.false_ne_true⟩
  exact ((every_call_answered_iff _).1 (hrun.mono fun _ _ _ => trivial) rfl "client" 1 _).1.2 rfl

/-- Two clients set up kernels of the same name. -/
def sameName : List NetworkAct :=
  [.call "first" (.setupKernel "kernel" "host" "5000"), .serve "first",
    .call "second" (.setupKernel "kernel" "host" "5001"), .sent "second" 0, .serve "second"]

/-- The second client waits, and neither its request nor a reply is on the way; the same request sends nothing again. -/
theorem setupKernel_unanswered : ∃ n, machine.Reachable n ∧ n.server.shutdown = false ∧
    repliesTo n.server "second" 2 (.setupKernel "kernel" "host" "5001") = [] ∧ (n.clients "second").shutdown = false ∧
    (n.clients "second").waiters[0]? = some { waiterid := 1, phase := .waiting } ∧
    n.toServer "second" = [] ∧ n.toClient "second" = [] := by
  obtain ⟨n, hn⟩ : ∃ n, machine.runBy (fun _ _ => True) {} sameName = some n := ⟨_, rfl⟩
  refine ⟨n, .of_runBy (.init rfl) hn, ?_⟩
  cases hn
  exact ⟨rfl, rfl, rfl, rfl, rfl, rfl⟩

end Network

end ProcessNetwork.RemoteContext
