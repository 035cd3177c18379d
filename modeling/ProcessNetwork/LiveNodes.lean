import ProcessNetwork.NodeLife
import ProcessNetwork.Lib.Machine

/-!
# Live nodes

`numlivenodes` of a `LocalContext` and of a `RemoteContextServer`, and what the two know of their nodes.  A `LocalContext`
takes every `SignalNodeEnd`, also the one that follows a `SignalNodeStart` it has refused; a `RemoteContextServer` drops
what reaches it after `Terminate`, and a client sends its `TERMINATE` before the first end whose start it has refused.
-/

namespace ProcessNetwork

variable {l : LifeAct} {i c : Nat}

/-! ### A local context -/

/-- The calls of a `LocalContext`; after `Terminate` they throw, except for `SignalNodeEnd`. -/
def localContext : NodeContext NodeTable where
  signalNodeStart r k := if r.shutdown then none else some (r.signal k .start)
  signalNodeEnd r k := r.signal k .finish
  getNodeKey r _ := !r.shutdown

inductive LocalLifeAct
  | createNodeKey (isExternal : Bool)
  | life (l : LifeAct)
  | terminate
  deriving DecidableEq, Repr

def localLivesNext (s : LifeState NodeTable) : LocalLifeAct → Option (LifeState NodeTable)
  | .createNodeKey isExternal =>
    if s.context.shutdown then none else some (s.addNode s.context.createNodeKey (.keyed isExternal))
  | .life l => s.next localContext l
  | .terminate => some { s with context := { s.context with shutdown := true } }

def localLives : Machine (LifeState NodeTable) LocalLifeAct where
  init s := s = ⟨.empty, [], [], []⟩
  next := localLivesNext

/-- The step calls `SignalNodeStart` from `NodeBase::EntryPoint`. -/
def LifeState.StartsThread {σ : Type} (s : LifeState σ) : LifeAct → Prop
  | .node i => s.nodes[i]? = some (.real .spawned)
  | _ => False

instance {σ : Type} (s : LifeState σ) : Decidable (s.StartsThread l) :=
  match l with
  | .node i => inferInstanceAs (Decidable (s.nodes[i]? = _))
  | .internalCreateNode _ _ | .endpoint _ | .destroy _ | .destroyer _ => isFalse id

/-- No thread of a node starts after `Terminate`, `DestroyExternalEndpoint` ends what has been created and not ended, and
there is room in the counter. -/
def LocalOrderly (s : LifeState NodeTable) : LocalLifeAct → Prop
  | .life l => (s.StartsThread l → s.context.shutdown = false) ∧ s.Ordered (fun _ => false) l ∧
      (s.Starts l → s.context.numlivenodes + 1 < 2 ^ 32)
  | _ => True

instance (s : LifeState NodeTable) (l : LocalLifeAct) : Decidable (LocalOrderly s l) :=
  match l with
  | .life _ => inferInstanceAs (Decidable (_ ∧ _ ∧ _))
  | .createNodeKey _ | .terminate => isTrue trivial

/-- The context knows its nodes. -/
structure Known (s : LifeState NodeTable) : Prop where
  counted : s.context.Counted
  length : s.context.nodes.length = s.nodes.length
  nodes : ∀ i < s.nodes.length, s.context.nodes[i]? = some (s.info i)
  placed : ∀ i, s.Placed i

private theorem LifeState.Placed.addNode {σ : Type} {s : LifeState σ} (h : s.Placed i) (context : σ) (isExternal : Bool) :
    (s.addNode context (.keyed isExternal)).Placed i := by
  refine ⟨fun hi => ?_, fun he => ?_⟩
  · rcases getElem?_append_singleton_cases hi with ⟨-, hx⟩ | hi
    · cases isExternal <;> cases hx
    · exact h.inserted hi
  · have hcreated := h.ended he
    exact (List.getElem?_append_left (List.getElem?_eq_some_iff.1 hcreated).1).trans hcreated

private theorem LifeState.addNode_info_length {σ : Type} (s : LifeState σ) (context : σ) (isExternal : Bool) :
    (s.addNode context (.keyed isExternal)).info s.nodes.length = .fresh := by
  rw [LifeState.info_eq List.getElem?_concat_length]
  cases isExternal <;> rfl

namespace Known

variable {s t : LifeState NodeTable}

private theorem addNode (h : Known s) (isExternal : Bool) :
    Known (s.addNode s.context.createNodeKey (.keyed isExternal)) := by
  refine ⟨h.counted.createNodeKey, ?_, fun i hi => ?_, fun i => (h.placed i).addNode _ _⟩
  · simp [LifeState.addNode, NodeTable.createNodeKey, h.length]
  · show (s.context.nodes ++ [NodeInfo.fresh])[i]? = _
    have hle : i < s.nodes.length ∨ i = s.nodes.length := by
      simp only [LifeState.addNode, List.length_append, List.length_singleton] at hi
      omega
    rcases hle with hlt | rfl
    · rw [LifeState.addNode_info hlt, List.getElem?_append_left (h.length ▸ hlt), h.nodes i hlt]
    · rw [s.addNode_info_length, ← h.length, List.getElem?_concat_length]

private theorem life (h : Known s) (hok : LocalOrderly s (.life l)) (hs : s.next localContext l = some t) :
    Known t ∧ t.context.numlivenodes ≤ s.context.numlivenodes + 1 := by
  obtain ⟨hthread, hordered, hroom⟩ := hok
  obtain ⟨i, hpass, heffect⟩ := LifeState.next_effect hs
  have hplaced (k : Nat) : t.Placed k := by
    by_cases hk : k = i
    · subst hk
      exact hpass.placed (h.placed k) (hordered.orderly rfl)
    · exact (hpass.alike k hk).placed (h.placed k)
  cases heffect with
  | quiet hc hi =>
    refine ⟨⟨hc ▸ h.counted, ?_, fun k hk => ?_, hplaced⟩, by rw [hc]; exact Nat.le_succ _⟩
    · rw [hc, hpass.length, h.length]
    · rw [hpass.length] at hk
      rw [hc, h.nodes k hk]
      by_cases hki : k = i
      · rw [hki, hi]
      · rw [(hpass.alike k hki).info]
  | signal g hc hstart hi =>
    obtain ⟨hlt, hfollow⟩ := hi (h.placed i) (hordered.orderly rfl)
    have hctx : t.context = s.context.signal i g := by
      cases g with
      | start =>
        obtain ⟨-, hc⟩ := Option.ite_none_left_eq_some.1 hc
        exact (Option.some.inj hc).symm
      | finish => exact (Option.some.inj hc).symm
    obtain ⟨hcounted, hle⟩ := h.counted.signal (h.nodes i hlt) hfollow fun hg => hroom (hstart hg)
    have hnodes : t.context.nodes = s.context.nodes.set i (t.info i) := by
      rw [hctx, NodeTable.signal_nodes (h.nodes i hlt) hfollow]
    refine ⟨⟨hctx ▸ hcounted, ?_, fun k hk => ?_, hplaced⟩, by rw [hctx]; exact hle⟩
    · rw [hnodes, List.length_set, h.length, hpass.length]
    · rw [hpass.length] at hk
      rw [hnodes]
      by_cases hki : k = i
      · rw [hki, getElem?_set_of_eq_some _ (h.nodes i hlt)]
      · rw [List.getElem?_set_ne (Ne.symm hki), h.nodes k hk, (hpass.alike k hki).info]
  | refused hl hpc hrefused hc =>
    subst hl
    have hsd := hthread hpc
    dsimp only [localContext] at hrefused
    rw [hsd] at hrefused
    cases hrefused

/-- One step. -/
theorem step {l : LocalLifeAct} (h : Known s) (hok : LocalOrderly s l) (hs : localLives.next s l = some t) :
    Known t ∧ t.context.numlivenodes ≤ s.context.numlivenodes + 1 := by
  cases l with
  | createNodeKey isExternal =>
    obtain ⟨-, ⟨⟩⟩ := Option.ite_none_left_eq_some.1 hs
    exact ⟨h.addNode isExternal, Nat.le_succ _⟩
  | life l => exact h.life hok hs
  | terminate =>
    cases hs
    exact ⟨⟨⟨h.counted.numlivenodes, h.counted.lt, h.counted.started⟩, h.length, h.nodes,
      fun i => ⟨(h.placed i).inserted, (h.placed i).ended⟩⟩, Nat.le_succ _⟩

end Known

/-! ### A remote context -/

/-- What a client sends to the server about nodes. -/
inductive ContextMessage
  | createNodeKey (isExternal : Bool)
  | signal (i : Nat) (g : NodeSignal)
  | terminate
  deriving DecidableEq, Repr

/-- A `RemoteContextClient`, with the messages that are on their way to the server. -/
structure ContextClient where
  shutdown : Bool
  outbox : List ContextMessage

structure RemoteContext where
  server : NodeTable
  /-- the client of the kernel of each node -/
  hosts : List Nat
  clients : List ContextClient

namespace RemoteContext

def setClient (r : RemoteContext) (c : Nat) (x : ContextClient) : RemoteContext :=
  { r with clients := r.clients.set c x }

def client (r : RemoteContext) (i : Nat) : Option ContextClient := r.hosts[i]?.bind fun c => r.clients[c]?

/-- The client of the node has been terminated. -/
def down (r : RemoteContext) (i : Nat) : Bool :=
  match r.client i with
  | some x => x.shutdown
  | none => true

def sendMessage (r : RemoteContext) (c : Nat) (m : ContextMessage) : RemoteContext :=
  match r.clients[c]? with
  | some x => r.setClient c { x with outbox := x.outbox ++ [m] }
  | none => r

/-- A message about a node, from the client of the node. -/
def signal (r : RemoteContext) (i : Nat) (g : NodeSignal) : RemoteContext :=
  match r.hosts[i]? with
  | some c => r.sendMessage c (.signal i g)
  | none => r

end RemoteContext

/-- The calls of a `RemoteContextClient`; after termination they throw, except for `SignalNodeEnd`.  `GetNodeKey` waits
for a reply, and throws when the client is terminated before it comes. -/
def remoteContext : NodeContext RemoteContext where
  signalNodeStart r i := if r.down i then none else some (r.signal i .start)
  signalNodeEnd r i := r.signal i .finish
  getNodeKey r i := !r.down i

inductive RemoteLifeAct
  | createNodeKey (c : Nat) (isExternal : Bool)
  | life (l : LifeAct)
  | terminate (c : Nat)
  /-- the server takes the next message of the client -/
  | deliver (c : Nat)
  /-- `Terminate` of the server, called by the program it is in -/
  | serverTerminate
  /-- the client takes the `TERMINATE` of the server -/
  | notice (c : Nat)
  deriving DecidableEq, Repr

/-- `DispatchMessage` of the server.  The caller of `CreateNodeKey` gets its key at once, unless its client has been
terminated while it waits. -/
def dispatch (s : LifeState RemoteContext) (c : Nat) (shutdown : Bool) : ContextMessage → LifeState RemoteContext
  | .createNodeKey isExternal =>
    s.addNode { s.context with server := s.context.server.createNodeKey, hosts := s.context.hosts ++ [c] }
      (if shutdown then (if isExternal then .external .refused else .real .rejected) else .keyed isExternal)
  | .signal i g => { s with context := { s.context with server := s.context.server.signal i g } }
  | .terminate => { s with context := { s.context with server := { s.context.server with shutdown := true } } }

def remoteLivesNext (s : LifeState RemoteContext) : RemoteLifeAct → Option (LifeState RemoteContext)
  | .createNodeKey c isExternal =>
    match s.context.clients[c]? with
    | some x =>
      if x.shutdown then none else some { s with context := s.context.sendMessage c (.createNodeKey isExternal) }
    | none => none
  | .life l => s.next remoteContext l
  | .terminate c =>
    match s.context.clients[c]? with
    | some x =>
      if x.shutdown then none
      else some { s with context := s.context.setClient c ⟨true, x.outbox ++ [.terminate]⟩ }
    | none => none
  | .deliver c =>
    match s.context.clients[c]? with
    | some ⟨shutdown, m :: rest⟩ =>
      let s := { s with context := s.context.setClient c ⟨shutdown, rest⟩ }
      -- the server drops every message once it is terminated
      some (if s.context.server.shutdown then s else dispatch s c shutdown m)
    | _ => none
  | .serverTerminate =>
    some { s with context := { s.context with server := { s.context.server with shutdown := true } } }
  | .notice c =>
    match s.context.clients[c]? with
    | some x =>
      if s.context.server.shutdown then some { s with context := s.context.setClient c { x with shutdown := true } }
      else none
    | none => none

/-- A server with any number of clients. -/
def remoteLives : Machine (LifeState RemoteContext) RemoteLifeAct where
  init s := ∃ n, s = ⟨⟨.empty, [], List.replicate n ⟨false, []⟩⟩, [], [], []⟩
  next := remoteLivesNext

/-- The server is about to count another node. -/
def RemoteContext.counts (r : RemoteContext) (c : Nat) : Bool :=
  match r.clients[c]? with
  | some ⟨_, .signal _ .start :: _⟩ => !r.server.shutdown
  | _ => false

/-- `DestroyExternalEndpoint` ends what has been created and not ended, unless its client is terminated, and there is room
in the counter. -/
def RemoteOrderly (s : LifeState RemoteContext) : RemoteLifeAct → Prop
  | .life l => s.Ordered s.context.down l
  | .deliver c => s.context.counts c = true → s.context.server.numlivenodes + 1 < 2 ^ 32
  | _ => True

instance (s : LifeState RemoteContext) (l : RemoteLifeAct) : Decidable (RemoteOrderly s l) :=
  match l with
  | .life l => inferInstanceAs (Decidable (s.Ordered _ l))
  | .deliver c => inferInstanceAs (Decidable (s.context.counts c = true → _))
  | .createNodeKey _ _ | .terminate _ | .serverTerminate | .notice _ => isTrue trivial

/-- The signals about a node that the server will take; it drops what comes after a `TERMINATE`. -/
def signals (i : Nat) : List ContextMessage → List NodeSignal
  | [] => []
  | .terminate :: _ => []
  | .createNodeKey _ :: ms => signals i ms
  | .signal k g :: ms => if k = i then g :: signals i ms else signals i ms

private theorem signals_append (i : Nat) (ms ms' : List ContextMessage) :
    signals i (ms ++ ms') = if .terminate ∈ ms then signals i ms else signals i ms ++ signals i ms' := by
  induction ms with
  | nil => rfl
  | cons m ms ih =>
    cases m with
    | terminate => rw [if_pos List.mem_cons_self]; rfl
    | createNodeKey isExternal =>
      show signals i (ms ++ ms') = _
      rw [ih]
      simp [signals]
    | signal k g =>
      simp only [List.cons_append, signals, ih]
      by_cases hk : k = i <;> by_cases hm : ContextMessage.terminate ∈ ms <;> simp [hk, hm]

private theorem signals_eq_nil {ms : List ContextMessage} (h : ∀ g, ContextMessage.signal i g ∉ ms) : signals i ms = [] := by
  induction ms with
  | nil => rfl
  | cons m ms ih =>
    have hrest := ih fun g hg => h g (List.mem_cons_of_mem _ hg)
    cases m with
    | terminate => rfl
    | createNodeKey isExternal => exact hrest
    | signal k g =>
      have hk : k ≠ i := by
        rintro rfl
        exact h g List.mem_cons_self
      rw [signals, if_neg hk, hrest]

/-- The server knows its nodes, once it has taken the messages that are on their way; what a terminated client has
not sent in time does not matter. -/
structure ServerKnows (s : LifeState RemoteContext) : Prop where
  counted : s.context.server.Counted
  length : s.context.server.nodes.length = s.nodes.length
  hosts : s.context.hosts.length = s.nodes.length
  sent : ∀ (c : Nat) (x : ContextClient) i g, s.context.clients[c]? = some x → .signal i g ∈ x.outbox →
    s.context.hosts[i]? = some c
  terminates : ∀ (c : Nat) (x : ContextClient), s.context.clients[c]? = some x → x.shutdown = true →
    s.context.server.shutdown = false → .terminate ∈ x.outbox
  terminated : ∀ (c : Nat) (x : ContextClient), s.context.clients[c]? = some x → .terminate ∈ x.outbox → x.shutdown = true
  destroyers : ∀ d ∈ s.destroyers, d.1 < s.nodes.length
  placed : ∀ i, s.context.down i = false → s.Placed i
  pending : s.context.server.shutdown = false → ∀ (i c : Nat) (x : ContextClient) y, s.context.hosts[i]? = some c →
    s.context.clients[c]? = some x → s.context.server.nodes[i]? = some y →
    ∃ z, y.followAll (signals i x.outbox) = some z ∧ (x.shutdown = false → z = s.info i)

namespace RemoteContext

variable {r : RemoteContext} {x z : ContextClient}

private theorem client_eq (hi : r.hosts[i]? = some c) (hx : r.clients[c]? = some x) : r.client i = some x := by
  unfold client
  rw [hi]
  exact hx

private theorem down_eq (hi : r.hosts[i]? = some c) (hx : r.clients[c]? = some x) : r.down i = x.shutdown := by
  unfold down
  rw [client_eq hi hx]

private theorem exists_of_down (h : r.down i = false) :
    ∃ c x, r.hosts[i]? = some c ∧ r.clients[c]? = some x ∧ x.shutdown = false := by
  unfold down client at h
  cases hi : r.hosts[i]? with
  | none => rw [hi] at h; cases h
  | some c =>
    rw [hi] at h
    dsimp only [Option.bind_some] at h
    cases hx : r.clients[c]? with
    | none => rw [hx] at h; cases h
    | some x => rw [hx] at h; exact ⟨c, x, rfl, hx, h⟩

/-- A client that has been terminated stays so. -/
theorem down_setClient (hx : r.clients[c]? = some x) (hsd : x.shutdown = true → z.shutdown = true)
    (h : (r.setClient c z).down i = false) : r.down i = false := by
  obtain ⟨d, y, hd, hy, hy'⟩ := exists_of_down h
  rcases getElem?_set_cases hy with ⟨rfl, rfl⟩ | ⟨-, hy⟩
  · rw [down_eq (r := r) hd hx]
    by_contra hne
    rw [hsd (eq_true_of_ne_false hne)] at hy'
    cases hy'
  · rw [down_eq (r := r) hd hy, hy']

end RemoteContext

namespace ServerKnows

variable {s t : LifeState RemoteContext} {x x' : ContextClient}

/-- A client changes, and perhaps the life of its nodes. -/
theorem setClient (h : ServerKnows s) (hx : s.context.clients[c]? = some x)
    (hc : t.context = s.context.setClient c x') (hlen : t.nodes.length = s.nodes.length)
    (hdest : ∀ d ∈ t.destroyers, d.1 < t.nodes.length) (hsd : x.shutdown = true → x'.shutdown = true)
    (hsent : ∀ i g, .signal i g ∈ x'.outbox → s.context.hosts[i]? = some c)
    (hterm : x'.shutdown = true → s.context.server.shutdown = false → .terminate ∈ x'.outbox)
    (hrun : .terminate ∈ x'.outbox → x'.shutdown = true)
    (hplaced : ∀ i, s.context.down i = false → t.Placed i)
    (hinfo : ∀ i d, s.context.hosts[i]? = some d → d ≠ c → s.context.down i = false → t.info i = s.info i)
    (hpend : s.context.server.shutdown = false → ∀ i y, s.context.hosts[i]? = some c →
      s.context.server.nodes[i]? = some y →
      ∃ z, y.followAll (signals i x'.outbox) = some z ∧ (x'.shutdown = false → z = t.info i)) : ServerKnows t := by
  obtain ⟨ctx, nodes, nodemap, destroyers⟩ := t
  cases hc
  refine ⟨h.counted, h.length.trans hlen.symm, h.hosts.trans hlen.symm, fun d y i g hy hg => ?_,
    fun d y hy hs hsrv => ?_, fun d y hy ht => ?_, hdest, fun i hi => ?_, fun hsrv i d y z hd hy hz => ?_⟩
  · rcases getElem?_set_cases hy with ⟨rfl, rfl⟩ | ⟨-, hy⟩
    · exact hsent i g hg
    · exact h.sent d y i g hy hg
  · rcases getElem?_set_cases hy with ⟨rfl, rfl⟩ | ⟨-, hy⟩
    · exact hterm hs hsrv
    · exact h.terminates d y hy hs hsrv
  · rcases getElem?_set_cases hy with ⟨rfl, rfl⟩ | ⟨-, hy⟩
    · exact hrun ht
    · exact h.terminated d y hy ht
  · exact hplaced i (RemoteContext.down_setClient hx hsd hi)
  · rcases getElem?_set_cases hy with ⟨rfl, rfl⟩ | ⟨hne, hy⟩
    · exact hpend hsrv i z hd hz
    · obtain ⟨w, hw, heq⟩ := h.pending hsrv i d y z hd hy hz
      refine ⟨w, hw, fun hs => ?_⟩
      rw [hinfo i d hd hne ((RemoteContext.down_eq (r := s.context) hd hy).trans hs), heq hs]

/-- A client changes, but not what the server will take from it. -/
theorem withClient (h : ServerKnows s) (hx : s.context.clients[c]? = some x)
    (hsd : x.shutdown = true → x'.shutdown = true)
    (hsent : ∀ i g, .signal i g ∈ x'.outbox → .signal i g ∈ x.outbox)
    (hterm : x'.shutdown = true → s.context.server.shutdown = false → .terminate ∈ x'.outbox)
    (hrun : .terminate ∈ x'.outbox → x'.shutdown = true)
    (hsig : s.context.server.shutdown = false → ∀ i, signals i x'.outbox = signals i x.outbox) :
    ServerKnows { s with context := s.context.setClient c x' } := by
  refine h.setClient hx rfl rfl h.destroyers hsd (fun i g hg => h.sent c x i g hx (hsent i g hg)) hterm hrun
    (fun i hi => ⟨(h.placed i hi).inserted, (h.placed i hi).ended⟩) (fun _ _ _ _ _ => rfl) fun hsrv i y hi hy => ?_
  obtain ⟨z, hz, heq⟩ := h.pending hsrv i c x y hi hx hy
  refine ⟨z, by rw [hsig hsrv, hz], fun hs => heq ?_⟩
  by_contra hne
  rw [hsd (eq_true_of_ne_false hne)] at hs
  cases hs

/-! ### The steps of the nodes -/

theorem destroyers_of_passes (h : ServerKnows s) (hpass : s.Passes t i l) : ∀ d ∈ t.destroyers, d.1 < t.nodes.length := by
  intro d hd
  rw [hpass.length]
  rcases hpass.destroyers d hd with hlt | ⟨d', hd', heq⟩
  · exact hlt
  · exact heq ▸ h.destroyers d' hd'

private theorem placed_of_passes (h : ServerKnows s) (hpass : s.Passes t i l) (hok : s.Ordered s.context.down l) (k : Nat)
    (hk : s.context.down k = false) : t.Placed k := by
  by_cases hki : k = i
  · subst hki
    exact hpass.placed (h.placed k hk) (hok.orderly hk)
  · exact (hpass.alike k hki).placed (h.placed k hk)

/-- A step that sends nothing, about which the server need not know. -/
theorem quiet (h : ServerKnows s) (hpass : s.Passes t i l) (hok : s.Ordered s.context.down l)
    (hc : t.context = s.context) (hi : s.context.down i = false → t.info i = s.info i) : ServerKnows t := by
  have hplaced := h.placed_of_passes hpass hok
  have hdest := h.destroyers_of_passes hpass
  have hinfo (k : Nat) (hk : s.context.down k = false) : t.info k = s.info k := by
    by_cases hki : k = i
    · subst hki
      exact hi hk
    · exact (hpass.alike k hki).info
  have hlen := hpass.length
  obtain ⟨ctx, nodes, nodemap, destroyers⟩ := t
  cases hc
  refine ⟨h.counted, h.length.trans hlen.symm, h.hosts.trans hlen.symm, h.sent, h.terminates, h.terminated, hdest,
    hplaced, fun hsrv k d y z hd hy hz => ?_⟩
  obtain ⟨w, hw, heq⟩ := h.pending hsrv k d y z hd hy hz
  refine ⟨w, hw, fun hs => ?_⟩
  rw [hinfo k ((RemoteContext.down_eq (r := s.context) hd hy).trans hs), heq hs]

/-- A step that sends a signal. -/
theorem signal {g : NodeSignal} (h : ServerKnows s) (hpass : s.Passes t i l) (hok : s.Ordered s.context.down l)
    (hc : t.context = s.context.signal i g)
    (hi : s.Placed i → s.Orderly i l → i < s.nodes.length ∧ (s.info i).follow g = some (t.info i)) :
    ServerKnows t := by
  unfold RemoteContext.signal at hc
  split at hc
  · rename_i c hhost
    unfold RemoteContext.sendMessage at hc
    split at hc
    · rename_i x hx
      have hdown := RemoteContext.down_eq hhost hx
      refine h.setClient hx hc hpass.length (h.destroyers_of_passes hpass) id (fun k g' hg => ?_) (fun hs hsrv => ?_)
        (fun ht => ?_) (h.placed_of_passes hpass hok) (fun k d hd hdc hk => ?_) fun hsrv k y hk hy => ?_
      · rcases List.mem_append.1 hg with hg | hg
        · exact h.sent c x k g' hx hg
        · cases List.mem_singleton.1 hg
          exact hhost
      · exact List.mem_append_left _ (h.terminates c x hx hs hsrv)
      · rcases List.mem_append.1 ht with ht | ht
        · exact h.terminated c x hx ht
        · cases List.mem_singleton.1 ht
      · refine (hpass.alike k ?_).info
        rintro rfl
        rw [hhost] at hd
        exact hdc (Option.some.inj hd).symm
      · obtain ⟨z, hz, heq⟩ := h.pending hsrv k c x y hk hx hy
        -- signals behind a `terminate` are not processed, the others are, in order
        rw [signals_append]
        cases hs : x.shutdown with
        | true =>
          rw [if_pos (h.terminates c x hx hs hsrv)]
          exact ⟨z, hz, fun hf => by cases hf⟩
        | false =>
          have hnot : ContextMessage.terminate ∉ x.outbox := fun ht => by
            rw [h.terminated c x hx ht] at hs
            cases hs
          rw [if_neg hnot, NodeInfo.followAll_append, hz, heq hs]
          by_cases hki : k = i
          · subst hki
            obtain ⟨-, hfollow⟩ := hi (h.placed k (hdown.trans hs)) (hok.orderly (hdown.trans hs))
            refine ⟨t.info k, ?_, fun _ => rfl⟩
            simp [signals, NodeInfo.followAll, hfollow]
          · refine ⟨s.info k, ?_, fun _ => ((hpass.alike k hki).info).symm⟩
            simp [signals, NodeInfo.followAll, Ne.symm hki]
    · rename_i hx
      exact h.quiet hpass hok hc fun hd => by
        obtain ⟨c', x, hc', hx', -⟩ := RemoteContext.exists_of_down hd
        rw [hhost] at hc'
        cases hc'
        rw [hx] at hx'
        cases hx'
  · rename_i hhost
    exact h.quiet hpass hok hc fun hd => by
      obtain ⟨c', x, hc', -⟩ := RemoteContext.exists_of_down hd
      rw [hhost] at hc'
      cases hc'

theorem life (h : ServerKnows s) (hok : s.Ordered s.context.down l) (hs : s.next remoteContext l = some t) :
    ServerKnows t := by
  obtain ⟨i, hpass, heffect⟩ := LifeState.next_effect hs
  cases heffect with
  | quiet hc hi => exact h.quiet hpass hok hc fun _ => hi
  | signal g hc hstart hi =>
    refine h.signal hpass hok ?_ hi
    cases g with
    | start =>
      obtain ⟨-, hc⟩ := Option.ite_none_left_eq_some.1 hc
      exact (Option.some.inj hc).symm
    | finish => exact (Option.some.inj hc).symm
  | refused hl hpc hrefused hc =>
    refine h.quiet hpass hok hc fun hd => ?_
    dsimp only [remoteContext] at hrefused
    rw [hd] at hrefused
    cases hrefused

/-! ### The steps of the server -/

theorem serverTerminate (h : ServerKnows s) :
    ServerKnows { s with context := { s.context with server := { s.context.server with shutdown := true } } } :=
  ⟨⟨h.counted.numlivenodes, h.counted.lt, h.counted.started⟩, h.length, h.hosts, h.sent,
    fun _ _ _ _ hf => (by cases hf), h.terminated, h.destroyers,
    fun i hi => ⟨(h.placed i hi).inserted, (h.placed i hi).ended⟩, fun hf => (by cases hf)⟩

/-- A new node, which no message is about yet. -/
theorem addNode {pc : KernelNode} (h : ServerKnows s) (hx : s.context.clients[c]? = some x)
    (hpc : ∀ b, pc.info b = .fresh) (hne : pc ≠ .external .inserted) :
    ServerKnows (s.addNode
      { s.context with server := s.context.server.createNodeKey, hosts := s.context.hosts ++ [c] } pc) := by
  have hhost {i d : Nat} (hd : (s.context.hosts ++ [c])[i]? = some d) :
      i = s.nodes.length ∧ d = c ∨ s.context.hosts[i]? = some d := by
    rw [← h.hosts]
    exact getElem?_append_singleton_cases hd
  have hlt {i d : Nat} (hd : s.context.hosts[i]? = some d) : i < s.nodes.length :=
    h.hosts ▸ (List.getElem?_eq_some_iff.1 hd).1
  refine ⟨h.counted.createNodeKey, ?_, ?_, fun d y i g hy hg => ?_, h.terminates, h.terminated, fun d hd => ?_,
    fun i hi => ⟨fun hn => ?_, fun he => ?_⟩, fun hsrv i d y z hd hy hz => ?_⟩
  · simp [LifeState.addNode, NodeTable.createNodeKey, h.length]
  · simp [LifeState.addNode, h.hosts]
  · have hi := h.sent d y i g hy hg
    exact (List.getElem?_append_left (List.getElem?_eq_some_iff.1 hi).1).trans hi
  · simp only [LifeState.addNode, List.length_append]
    exact Nat.lt_add_right _ (h.destroyers d hd)
  · rcases getElem?_append_singleton_cases hn with ⟨-, hp⟩ | hn
    · exact absurd hp.symm hne
    · obtain ⟨d, y, hd, hy, hs⟩ := RemoteContext.exists_of_down hi
      rcases hhost hd with ⟨rfl, -⟩ | hd
      · exact absurd (List.getElem?_eq_some_iff.1 hn).1 (Nat.lt_irrefl _)
      · exact (h.placed i ((RemoteContext.down_eq (r := s.context) hd hy).trans hs)).inserted hn
  · obtain ⟨d, y, hd, hy, hs⟩ := RemoteContext.exists_of_down hi
    rcases hhost hd with ⟨rfl, -⟩ | hd
    · exact absurd (h.destroyers _ he) (Nat.lt_irrefl _)
    · have hcreated := (h.placed i ((RemoteContext.down_eq (r := s.context) hd hy).trans hs)).ended he
      exact (List.getElem?_append_left (List.getElem?_eq_some_iff.1 hcreated).1).trans hcreated
  · rcases hhost hd with ⟨rfl, rfl⟩ | hd
    · have hnil : signals s.nodes.length y.outbox = [] :=
        signals_eq_nil fun g hg => Nat.lt_irrefl _ (hlt (h.sent d y _ g hy hg))
      have hfresh : z = .fresh := by
        rcases getElem?_append_singleton_cases hz with ⟨-, hz⟩ | hz
        · exact hz
        · exact absurd (h.length ▸ (List.getElem?_eq_some_iff.1 hz).1) (Nat.lt_irrefl _)
      refine ⟨.fresh, by rw [hnil, hfresh]; rfl, fun _ => ?_⟩
      exact (hpc _).symm.trans (LifeState.info_eq List.getElem?_concat_length).symm
    · have hz' : s.context.server.nodes[i]? = some z := by
        rcases getElem?_append_singleton_cases hz with ⟨rfl, -⟩ | hz
        · exact absurd (h.length ▸ hlt hd) (Nat.lt_irrefl _)
        · exact hz
      obtain ⟨w, hw, heq⟩ := h.pending hsrv i d y z hd hy hz'
      exact ⟨w, hw, fun hs => (heq hs).trans (LifeState.addNode_info (hlt hd)).symm⟩

/-- The server takes a signal. -/
theorem takeSignal {k : Nat} {g : NodeSignal} {rest : List ContextMessage} {shutdown : Bool} (h : ServerKnows s)
    (hx : s.context.clients[c]? = some ⟨shutdown, .signal k g :: rest⟩) (hsrv : s.context.server.shutdown = false)
    (hroom : g = .start → s.context.server.numlivenodes + 1 < 2 ^ 32) :
    ServerKnows { s with context :=
      { s.context.setClient c ⟨shutdown, rest⟩ with server := s.context.server.signal k g } } ∧
      (s.context.server.signal k g).numlivenodes ≤ s.context.server.numlivenodes + 1 := by
  have hhost := h.sent c _ k g hx List.mem_cons_self
  have hlt : k < s.context.server.nodes.length := by
    rw [h.length, ← h.hosts]
    exact (List.getElem?_eq_some_iff.1 hhost).1
  have hk := List.getElem?_eq_getElem hlt
  obtain ⟨z, hz, heq⟩ := h.pending hsrv k c _ _ hhost hx hk
  rw [signals, if_pos rfl] at hz
  obtain ⟨y, hy, hz⟩ := Option.bind_eq_some_iff.1 hz
  obtain ⟨hcounted, hle⟩ := h.counted.signal hk hy hroom
  have hnodes := NodeTable.signal_nodes hk hy
  refine ⟨⟨hcounted, ?_, h.hosts, fun d w i g' hw hg => ?_, fun d w hw hs hd => ?_, fun d w hw ht => ?_, h.destroyers,
    fun i hi => ?_, fun _ i d w v hd hw hv => ?_⟩, hle⟩
  · exact (congrArg List.length hnodes).trans (List.length_set.trans h.length)
  · rcases getElem?_set_cases hw with ⟨rfl, rfl⟩ | ⟨-, hw⟩
    · exact h.sent d _ i g' hx (List.mem_cons_of_mem _ hg)
    · exact h.sent d w i g' hw hg
  · rcases getElem?_set_cases hw with ⟨rfl, rfl⟩ | ⟨-, hw⟩
    · exact (List.mem_cons.1 (h.terminates d _ hx hs hsrv)).resolve_left (by simp)
    · exact h.terminates d w hw hs hsrv
  · rcases getElem?_set_cases hw with ⟨rfl, rfl⟩ | ⟨-, hw⟩
    · exact h.terminated d ⟨_, _ :: _⟩ hx (List.mem_cons_of_mem _ ht)
    · exact h.terminated d w hw ht
  · have hp := h.placed i (RemoteContext.down_setClient (z := ⟨shutdown, rest⟩) hx (fun hs => hs) hi)
    exact ⟨hp.inserted, hp.ended⟩
  · have hv' : (s.context.server.nodes.set k y)[i]? = some v := hnodes ▸ hv
    rcases getElem?_set_cases hv' with ⟨rfl, rfl⟩ | ⟨hik, hv'⟩
    · rcases getElem?_set_cases hw with ⟨rfl, rfl⟩ | ⟨hne, hw⟩
      · exact ⟨z, hz, heq⟩
      · rw [show s.context.hosts[i]? = some d from hd] at hhost
        exact absurd (Option.some.inj hhost) hne
    · rcases getElem?_set_cases hw with ⟨rfl, rfl⟩ | ⟨-, hw⟩
      · obtain ⟨u, hu, heq⟩ := h.pending hsrv i d _ v hd hx hv'
        rw [signals, if_neg (Ne.symm hik)] at hu
        exact ⟨u, hu, heq⟩
      · exact h.pending hsrv i d w v hd hw hv'

private theorem deliver {m : ContextMessage} {rest : List ContextMessage} {shutdown : Bool} (h : ServerKnows s)
    (hx : s.context.clients[c]? = some ⟨shutdown, m :: rest⟩)
    (hroom : s.context.counts c = true → s.context.server.numlivenodes + 1 < 2 ^ 32)
    (ht : t = if s.context.server.shutdown then { s with context := s.context.setClient c ⟨shutdown, rest⟩ }
      else dispatch { s with context := s.context.setClient c ⟨shutdown, rest⟩ } c shutdown m) :
    ServerKnows t ∧ t.context.server.numlivenodes ≤ s.context.server.numlivenodes + 1 := by
  have hrun : ContextMessage.terminate ∈ rest → shutdown = true := fun hm =>
    h.terminated c _ hx (List.mem_cons_of_mem _ hm)
  cases hsrv : s.context.server.shutdown with
  | true =>
    rw [hsrv] at ht
    subst ht
    refine ⟨h.withClient hx id (fun i g hg => List.mem_cons_of_mem _ hg) (fun _ hf => ?_) hrun fun hf => ?_,
      Nat.le_succ _⟩ <;>
    · rw [hsrv] at hf
      cases hf
  | false =>
    rw [hsrv] at ht
    subst ht
    cases m with
    | createNodeKey isExternal =>
      have hrest : ServerKnows { s with context := s.context.setClient c ⟨shutdown, rest⟩ } :=
        h.withClient hx id (fun i g hg => List.mem_cons_of_mem _ hg)
          (fun hs hd => (List.mem_cons.1 (h.terminates c _ hx hs hd)).resolve_left (by simp)) hrun fun _ i => rfl
      refine ⟨hrest.addNode (getElem?_set_of_eq_some _ hx) (fun b => ?_) ?_, Nat.le_succ _⟩
      · cases shutdown <;> cases isExternal <;> rfl
      · cases shutdown <;> cases isExternal <;> simp [KernelNode.keyed]
    | signal k g =>
      refine h.takeSignal hx hsrv fun hg => hroom ?_
      subst hg
      unfold RemoteContext.counts
      rw [hx]
      simp [hsrv]
    | terminate =>
      exact ⟨h.serverTerminate.withClient hx id (fun i g hg => List.mem_cons_of_mem _ hg) (fun _ hf => (by cases hf))
        hrun fun hf => (by cases hf), Nat.le_succ _⟩

/-- The nodes only send. -/
theorem server_life (hs : s.next remoteContext l = some t) : t.context.server = s.context.server := by
  have hsend (i : Nat) (g : NodeSignal) : (s.context.signal i g).server = s.context.server := by
    unfold RemoteContext.signal RemoteContext.sendMessage
    split
    · split <;> rfl
    · rfl
  obtain ⟨i, -, heffect⟩ := LifeState.next_effect hs
  cases heffect with
  | quiet hc => rw [hc]
  | signal g hc =>
    cases g with
    | start =>
      obtain ⟨-, hc⟩ := Option.ite_none_left_eq_some.1 hc
      rw [← Option.some.inj hc, hsend]
    | finish => rw [← Option.some.inj hc]; exact hsend i .finish
  | refused hl hpc hrefused hc => rw [hc]

/-! ### One step -/

theorem step {l : RemoteLifeAct} (h : ServerKnows s) (hok : RemoteOrderly s l) (hs : remoteLives.next s l = some t) :
    ServerKnows t ∧ t.context.server.numlivenodes ≤ s.context.server.numlivenodes + 1 := by
  cases l with
  | createNodeKey c isExternal =>
    dsimp only [remoteLives, remoteLivesNext] at hs
    split at hs
    · rename_i x hx
      obtain ⟨hsd, ⟨⟩⟩ := Option.ite_none_left_eq_some.1 hs
      have hsend : s.context.sendMessage c (.createNodeKey isExternal) =
          s.context.setClient c { x with outbox := x.outbox ++ [.createNodeKey isExternal] } := by
        unfold RemoteContext.sendMessage
        rw [hx]
      rw [hsend]
      -- the request for a key is no signal
      refine ⟨h.withClient hx id (fun i g hg => ?_) (fun hf => absurd hf hsd) (fun ht => ?_) fun _ i => ?_,
        Nat.le_succ _⟩
      · simpa using hg
      · exact h.terminated c x hx (by simpa using ht)
      · rw [signals_append, if_neg fun ht => hsd (h.terminated c x hx ht)]
        exact List.append_nil _
    · cases hs
  | life l =>
    refine ⟨h.life hok hs, ?_⟩
    rw [server_life hs]
    exact Nat.le_succ _
  | terminate c =>
    dsimp only [remoteLives, remoteLivesNext] at hs
    split at hs
    · rename_i x hx
      obtain ⟨hsd, ⟨⟩⟩ := Option.ite_none_left_eq_some.1 hs
      refine ⟨h.withClient hx (fun _ => rfl) (fun i g hg => ?_) (fun _ _ => ?_) (fun _ => rfl) fun _ i => ?_,
        Nat.le_succ _⟩
      · simpa using hg
      · exact List.mem_append_right _ (List.mem_singleton.2 rfl)
      · rw [signals_append, if_neg fun ht => hsd (h.terminated c x hx ht)]
        exact List.append_nil _
    · cases hs
  | deliver c =>
    dsimp only [remoteLives, remoteLivesNext] at hs
    split at hs
    · rename_i shutdown m rest hx
      exact h.deliver hx hok (Option.some.inj hs).symm
    · cases hs
  | serverTerminate =>
    cases hs
    exact ⟨h.serverTerminate, Nat.le_succ _⟩
  | notice c =>
    dsimp only [remoteLives, remoteLivesNext] at hs
    split at hs
    · rename_i x hx
      obtain ⟨hsrv, ⟨⟩⟩ := Option.ite_none_right_eq_some.1 hs
      refine ⟨h.withClient hx (fun _ => rfl) (fun _ _ hg => hg) (fun _ hf => ?_) (fun _ => rfl) fun _ _ => rfl,
        Nat.le_succ _⟩
      rw [hsrv] at hf
      cases hf
    · cases hs

end ServerKnows

private theorem serverKnows_of_reachableBy {s : LifeState RemoteContext} (h : remoteLives.ReachableBy RemoteOrderly s) :
    ServerKnows s := by
  refine h.invariant ?_ fun s l t hI hok hs => (hI.step hok hs).1
  rintro _ ⟨n, rfl⟩
  have hidle (c : Nat) (x : ContextClient) (hx : (List.replicate n ⟨false, []⟩)[c]? = some x) : x = ⟨false, []⟩ :=
    List.eq_of_mem_replicate (List.mem_iff_getElem?.2 ⟨c, hx⟩)
  refine ⟨NodeTable.counted_empty, rfl, rfl, fun c x i g hx hg => ?_, fun c x hx hs _ => ?_, fun c x hx ht => ?_,
    fun _ hd => (by cases hd), fun i _ => ⟨fun hi => (by cases hi), fun he => (by cases he)⟩,
    fun _ i c x y hi => (by cases hi)⟩
  · cases hidle c x hx
    cases hg
  · cases hidle c x hx
    cases hs
  · cases hidle c x hx
    cases ht

private theorem known_of_reachableBy {s : LifeState NodeTable} (h : localLives.ReachableBy LocalOrderly s) : Known s := by
  refine h.invariant ?_ fun s l t hI hok hs => (hI.step hok hs).1
  rintro _ rfl
  exact ⟨NodeTable.counted_empty, rfl, fun i hi => absurd hi (Nat.not_lt_zero i),
    fun i => ⟨fun hi => (by cases hi), fun he => (by cases he)⟩⟩

/-! ### The count -/

/-- The live nodes are counted in every state that is reached, and no step wraps the counter. -/
theorem live_nodes_counted (s : LifeState NodeTable) (s' : LifeState RemoteContext) :
    (localLives.ReachableBy LocalOrderly s → s.context.Counted ∧
      ∀ l t, LocalOrderly s l → localLives.next s l = some t →
        t.context.numlivenodes ≤ s.context.numlivenodes + 1) ∧
    (remoteLives.ReachableBy RemoteOrderly s' → s'.context.server.Counted ∧
      ∀ l t, RemoteOrderly s' l → remoteLives.next s' l = some t →
        t.context.server.numlivenodes ≤ s'.context.server.numlivenodes + 1) := by
  constructor
  · intro h
    have hknown := known_of_reachableBy h
    exact ⟨hknown.counted, fun l t hok hs => (hknown.step hok hs).2⟩
  · intro h
    have hknown := serverKnows_of_reachableBy h
    exact ⟨hknown.counted, fun l t hok hs => (hknown.step hok hs).2⟩

theorem live_nodes_counted_runs :
    (∃ s : LifeState NodeTable, s.context.numlivenodes = 1 ∧ s.context.shutdown = true ∧ s.context.Counted) ∧
    ∃ s : LifeState RemoteContext, s.context.server.numlivenodes = 1 ∧ s.context.server.Counted := by
  constructor
  · have hrun : ((localLives.runBy LocalOrderly ⟨.empty, [], [], []⟩
        [.createNodeKey false, .createNodeKey true, .life (.internalCreateNode 0 true), .life (.endpoint 1),
          .life (.endpoint 1), .life (.node 0), .life (.destroy 1), .terminate, .life (.destroyer 0),
          .life (.destroyer 0), .life (.destroyer 0)]).any fun s =>
        decide (s.context.numlivenodes = 1 ∧ s.context.shutdown = true)) = true := by decide +kernel
    obtain ⟨s, hs, hp⟩ := Machine.exists_reachableBy (M := localLives) rfl hrun
    obtain ⟨h1, h2⟩ := of_decide_eq_true hp
    exact ⟨s, h1, h2, ((live_nodes_counted s ⟨⟨.empty, [], []⟩, [], [], []⟩).1 hs).1⟩
  · have hrun : ((remoteLives.runBy RemoteOrderly ⟨⟨.empty, [], List.replicate 2 ⟨false, []⟩⟩, [], [], []⟩
        [.createNodeKey 0 false, .deliver 0, .createNodeKey 1 true, .deliver 1, .life (.internalCreateNode 0 true),
          .life (.endpoint 1), .life (.endpoint 1), .life (.node 0), .deliver 1, .deliver 0, .life (.destroy 1),
          .life (.destroyer 0), .life (.destroyer 0), .deliver 1, .terminate 1]).any fun s =>
        decide (s.context.server.numlivenodes = 1)) = true := by decide +kernel
    obtain ⟨s, hs, hp⟩ := Machine.exists_reachableBy (M := remoteLives) ⟨2, rfl⟩ hrun
    exact ⟨s, of_decide_eq_true hp, ((live_nodes_counted ⟨.empty, [], [], []⟩ s).2 hs).1⟩

/-- A thread that starts after `Terminate` of a `LocalContext`, and a `DestroyExternalEndpoint` before the
`SignalNodeStart` of the endpoint it finds in the map. -/
theorem not_forall_live_nodes_counted :
    ¬ (∀ s, localLives.Reachable s → s.context.Counted) ∧
    ¬ (∀ s, remoteLives.Reachable s → s.context.server.Counted) := by
  constructor
  · intro h
    have hrun : ((localLives.runBy (fun _ _ => True) ⟨.empty, [], [], []⟩
        [.createNodeKey false, .life (.internalCreateNode 0 true), .terminate, .life (.node 0), .life (.node 0)]).any
          fun s => decide (s.context.numlivenodes = 2 ^ 32 - 1 ∧ ⟨false, true⟩ ∈ s.context.nodes)) = true := by
      decide +kernel
    obtain ⟨s, hs, hp⟩ := Machine.exists_reachableBy (M := localLives) rfl hrun
    have hstarted := (h s hs).started _ (of_decide_eq_true hp).2 rfl
    cases hstarted
  · intro h
    have hrun : ((remoteLives.runBy (fun _ _ => True) ⟨⟨.empty, [], List.replicate 1 ⟨false, []⟩⟩, [], [], []⟩
        [.createNodeKey 0 true, .deliver 0, .life (.endpoint 0), .life (.destroy 0), .life (.destroyer 0),
          .life (.destroyer 0), .deliver 0]).any fun s =>
        decide (s.context.server.numlivenodes = 2 ^ 32 - 1 ∧ ⟨false, true⟩ ∈ s.context.server.nodes)) = true := by
      decide +kernel
    obtain ⟨s, hs, hp⟩ := Machine.exists_reachableBy (M := remoteLives) ⟨1, rfl⟩ hrun
    have hstarted := (h s hs).started _ (of_decide_eq_true hp).2 rfl
    cases hstarted

end ProcessNetwork
