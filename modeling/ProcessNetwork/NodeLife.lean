import ProcessNetwork.Kernel
import ProcessNetwork.Lib.Places

/-!
# The life of a node in the context

What a context knows of its nodes, and the code that tells it: `NodeBase::EntryPoint` for a node with a thread,
`CreateExternalEndpoint` and `DestroyExternalEndpoint` for an external endpoint.  The same code runs over a
`LocalContext` and over a `RemoteContextClient`, so it is stated over a context of any kind.

The nodes are those of all kernels of the context; `nodemap` holds the keys that are in the node map of their kernel, and
`DestroyExternalEndpoint` is called on the kernel of the node, because on any other it only throws.
-/

namespace ProcessNetwork

structure NodeInfo where
  started : Bool
  dead : Bool
  deriving DecidableEq, Repr

/-- `SignalNodeStart` and `SignalNodeEnd`. -/
inductive NodeSignal
  | start
  | finish
  deriving DecidableEq, Repr

namespace NodeInfo

def live (x : NodeInfo) : Bool := x.started && !x.dead

def mark (x : NodeInfo) : NodeSignal → NodeInfo
  | .start => { x with started := true }
  | .finish => { x with dead := true }

/-- A node before its life: its key has just been created. -/
def fresh : NodeInfo := ⟨false, false⟩

/-- The order of a life: one start, then one end. -/
def follow : NodeInfo → NodeSignal → Option NodeInfo
  | ⟨false, false⟩, .start => some ⟨true, false⟩
  | ⟨true, false⟩, .finish => some ⟨true, true⟩
  | _, _ => none

def followAll (x : NodeInfo) : List NodeSignal → Option NodeInfo
  | [] => some x
  | g :: gs => (x.follow g).bind fun y => y.followAll gs

private theorem mark_of_follow {x y : NodeInfo} {g : NodeSignal} (h : x.follow g = some y) : x.mark g = y := by
  obtain ⟨a, b⟩ := x
  cases a <;> cases b <;> cases g <;> cases h <;> rfl

theorem followAll_append (x : NodeInfo) (gs gs' : List NodeSignal) :
    x.followAll (gs ++ gs') = (x.followAll gs).bind fun y => y.followAll gs' := by
  induction gs generalizing x with
  | nil => rfl
  | cons g gs ih =>
    simp only [List.cons_append, followAll]
    cases x.follow g with
    | none => rfl
    | some y => exact ih y

end NodeInfo

/-- The part of a context that is about nodes; a key is an index. -/
structure NodeTable where
  nodes : List NodeInfo
  /-- of type `unsigned` -/
  numlivenodes : Nat
  shutdown : Bool

namespace NodeTable

variable {r : NodeTable} {k : Nat} {g : NodeSignal} {x y : NodeInfo}

def empty : NodeTable := ⟨[], 0, false⟩

def createNodeKey (r : NodeTable) : NodeTable := { r with nodes := r.nodes ++ [.fresh] }

/-- `++numlivenodes` and `--numlivenodes`. -/
def count (n : Nat) : NodeSignal → Nat
  | .start => (n + 1) % 2 ^ 32
  | .finish => (n + (2 ^ 32 - 1)) % 2 ^ 32

/-- `SignalNodeStart` and `SignalNodeEnd`, when they are not refused. -/
def signal (r : NodeTable) (k : Nat) (g : NodeSignal) : NodeTable :=
  { r with nodes := r.nodes.modify k fun x => x.mark g, numlivenodes := count r.numlivenodes g }

/-- The live nodes are counted, and a node that has died has been started. -/
structure Counted (r : NodeTable) : Prop where
  numlivenodes : r.numlivenodes = r.nodes.countP NodeInfo.live
  lt : r.numlivenodes < 2 ^ 32
  started : ∀ x ∈ r.nodes, x.dead = true → x.started = true

theorem counted_empty : Counted empty := ⟨rfl, Nat.two_pow_pos 32, fun _ hx => by cases hx⟩

theorem Counted.createNodeKey (h : Counted r) : Counted r.createNodeKey := by
  refine ⟨?_, h.lt, fun x hx hd => ?_⟩
  · show r.numlivenodes = (r.nodes ++ [NodeInfo.fresh]).countP _
    rw [List.countP_append, h.numlivenodes]
    rfl
  · rcases List.mem_append.1 hx with hx | hx
    · exact h.started x hx hd
    · rw [List.mem_singleton.1 hx] at hd
      cases hd

theorem signal_nodes (hk : r.nodes[k]? = some x) (hx : x.follow g = some y) :
    (r.signal k g).nodes = r.nodes.set k y := by
  show r.nodes.modify k _ = _
  rw [List.modify_eq_set_getElem?, hk]
  exact congrArg (r.nodes.set k) (NodeInfo.mark_of_follow hx)

/-- A signal that comes in the order of the life of a node keeps the count, and does not wrap it. -/
theorem Counted.signal (h : Counted r) (hk : r.nodes[k]? = some x) (hx : x.follow g = some y)
    (hroom : g = .start → r.numlivenodes + 1 < 2 ^ 32) :
    Counted (r.signal k g) ∧ (r.signal k g).numlivenodes ≤ r.numlivenodes + 1 := by
  have hcount : (r.nodes.set k y).countP NodeInfo.live = (r.signal k g).numlivenodes ∧
      (r.signal k g).numlivenodes < 2 ^ 32 ∧ (r.signal k g).numlivenodes ≤ r.numlivenodes + 1 := by
    have hset := countP_set_add (p := NodeInfo.live) y hk
    have hn := h.numlivenodes
    have hlt := h.lt
    show _ = count r.numlivenodes g ∧ count r.numlivenodes g < _ ∧ count r.numlivenodes g ≤ _
    obtain ⟨a, b⟩ := x
    cases a <;> cases b <;> cases g <;> cases hx <;> simp [NodeInfo.live] at hset
    case false.false.start =>
      have hroom := hroom rfl
      dsimp only [count]
      omega
    case true.false.finish =>
      dsimp only [count]
      omega
  refine ⟨⟨?_, hcount.2.1, fun z hz hd => ?_⟩, hcount.2.2⟩
  · rw [signal_nodes hk hx]
    exact hcount.1.symm
  · rw [signal_nodes hk hx] at hz
    rcases List.mem_or_eq_of_mem_set hz with hz | rfl
    · exact h.started z hz hd
    · obtain ⟨a, b⟩ := x
      cases a <;> cases b <;> cases g <;> cases hx
      · cases hd
      · rfl

end NodeTable

/-- The place of a node whose key has just been created. -/
def KernelNode.keyed (isExternal : Bool) : KernelNode := if isExternal then .external .keyed else .real .keyed

/-- What is true of a node at a place; `gone` tells whether an external endpoint has been ended. -/
def KernelNode.info (gone : Bool) : KernelNode → NodeInfo
  | .real .processing | .real .ending => ⟨true, false⟩
  | .real .ended | .real .finished => ⟨true, true⟩
  | .external .created => ⟨true, gone⟩
  | _ => .fresh

/-- The calls of a context that the life of a node makes. -/
structure NodeContext (σ : Type) where
  /-- `none` when it throws a `ShutdownException` -/
  signalNodeStart : σ → Nat → Option σ
  signalNodeEnd : σ → Nat → σ
  /-- `GetNodeKey` returns, when it is called with the name of a node -/
  getNodeKey : σ → Nat → Bool

def NodeContext.signal {σ : Type} (C : NodeContext σ) (c : σ) (k : Nat) : NodeSignal → Option σ
  | .start => C.signalNodeStart c k
  | .finish => some (C.signalNodeEnd c k)

structure LifeState (σ : Type) where
  context : σ
  nodes : List KernelNode
  nodemap : List Nat
  destroyers : List (Nat × DestroyerPc)

inductive LifeAct
  /-- `accepted` when the kernel is running and there is a factory for the type of the node -/
  | internalCreateNode (i : Nat) (accepted : Bool)
  | endpoint (i : Nat)
  | node (i : Nat)
  | destroy (i : Nat)
  | destroyer (j : Nat)
  deriving DecidableEq, Repr

namespace LifeState

variable {σ : Type} {C : NodeContext σ} {s t : LifeState σ} {i j k : Nat} {l : LifeAct}

def setNode (s : LifeState σ) (i : Nat) (pc : KernelNode) : LifeState σ := { s with nodes := s.nodes.set i pc }

def setDestroyer (s : LifeState σ) (j i : Nat) (pc : DestroyerPc) : LifeState σ :=
  { s with destroyers := s.destroyers.set j (i, pc) }

/-- The section of `NodeTerminated` under `nodelock`. -/
def nodeTerminated (s : LifeState σ) (key : Nat) : LifeState σ :=
  { s with nodemap := s.nodemap.filter fun k => k ≠ key }

def isPurePseudo (s : LifeState σ) (i : Nat) : Bool :=
  match s.nodes[i]? with
  | some (.external _) => true
  | _ => false

def internalCreateNode (s : LifeState σ) (i : Nat) (accepted : Bool) : Option (LifeState σ) :=
  if s.nodes[i]? = some (.real .keyed) then
    if accepted then some { s.setNode i (.real .spawned) with nodemap := i :: s.nodemap }
    else some (s.setNode i (.real .rejected))
  else none

/-- A step of the thread in `CreateExternalEndpoint`. -/
def endpoint (C : NodeContext σ) (s : LifeState σ) (i : Nat) : Option (LifeState σ) :=
  match s.nodes[i]? with
  | some (.external .keyed) => some { s.setNode i (.external .inserted) with nodemap := i :: s.nodemap }
  | some (.external .inserted) =>
    match C.signalNodeStart s.context i with
    | some c => some { s.setNode i (.external .created) with context := c }
    | none => some (s.setNode i (.external .refused))
  | _ => none

/-- A step of the thread of a node in `NodeBase::EntryPoint`. -/
def node (C : NodeContext σ) (s : LifeState σ) (i : Nat) : Option (LifeState σ) :=
  match s.nodes[i]? with
  | some (.real .spawned) =>
    match C.signalNodeStart s.context i with
    | some c => some { s.setNode i (.real .processing) with context := c }
    -- the exception is caught, and `NodeTerminated` is called all the same
    | none => some (s.setNode i (.real .ending))
  | some (.real .processing) => some (s.setNode i (.real .ending))
  | some (.real .ending) => some { s.setNode i (.real .ended) with context := C.signalNodeEnd s.context i }
  | some (.real .ended) => some ((s.nodeTerminated i).setNode i (.real .finished))
  | _ => none

/-- A step of a thread in `DestroyExternalEndpoint`. -/
def destroyer (C : NodeContext σ) (s : LifeState σ) (j : Nat) : Option (LifeState σ) :=
  match s.destroyers[j]? with
  | some (i, .looking) => some (s.setDestroyer j i (if i ∈ s.nodemap ∧ s.isPurePseudo i then .found else .out))
  | some (i, .found) => some { s.setDestroyer j i .ended with context := C.signalNodeEnd s.context i }
  | some (i, .ended) => some ((s.nodeTerminated i).setDestroyer j i .out)
  | _ => none

def next (C : NodeContext σ) (s : LifeState σ) : LifeAct → Option (LifeState σ)
  | .internalCreateNode i accepted => s.internalCreateNode i accepted
  | .endpoint i => s.endpoint C i
  | .node i => s.node C i
  | .destroy i =>
    if C.getNodeKey s.context i ∧ i < s.nodes.length then
      some { s with destroyers := s.destroyers ++ [(i, .looking)] }
    else none
  | .destroyer j => s.destroyer C j

/-! ### What the context should know -/

/-- `SignalNodeEnd` has been called for the external endpoint, which may have left the map since. -/
def gone (s : LifeState σ) (i : Nat) : Bool := decide (i ∉ s.nodemap ∨ (i, .ended) ∈ s.destroyers)

/-- What is true of a node, whether or not the context knows it. -/
def info (s : LifeState σ) (i : Nat) : NodeInfo :=
  match s.nodes[i]? with
  | some pc => pc.info (s.gone i)
  | none => .fresh

/-- The external endpoint has been created, and no `DestroyExternalEndpoint` has ended it. -/
def Endable (s : LifeState σ) (i : Nat) : Prop :=
  s.nodes[i]? = some (.external .created) ∧ i ∈ s.nodemap ∧ (i, .ended) ∉ s.destroyers

instance (s : LifeState σ) (i : Nat) : Decidable (s.Endable i) := inferInstanceAs (Decidable (_ ∧ _ ∧ _))

/-- `DestroyExternalEndpoint` only calls `SignalNodeEnd` for an endpoint that has been created and not ended. -/
def Orderly (s : LifeState σ) (i : Nat) : LifeAct → Prop
  | .destroyer j => s.destroyers[j]? = some (i, .found) → s.Endable i
  | _ => True

/-- An endpoint is in the map when it is to be started, and only an endpoint that has been created is ended. -/
structure Placed (s : LifeState σ) (i : Nat) : Prop where
  inserted : s.nodes[i]? = some (.external .inserted) → i ∈ s.nodemap
  ended : (i, .ended) ∈ s.destroyers → s.nodes[i]? = some (.external .created)

/-- Nothing has changed that the life of the node depends on. -/
structure Alike (s t : LifeState σ) (k : Nat) : Prop where
  nodes : t.nodes[k]? = s.nodes[k]?
  nodemap : k ∈ t.nodemap ↔ k ∈ s.nodemap
  ended : (k, DestroyerPc.ended) ∈ t.destroyers ↔ (k, DestroyerPc.ended) ∈ s.destroyers

theorem Alike.info (h : Alike s t k) : t.info k = s.info k := by
  have hgone : t.gone k = s.gone k := by simp only [gone, h.nodemap, h.ended]
  unfold LifeState.info
  rw [h.nodes, hgone]

theorem Alike.placed (h : Alike s t k) (hp : s.Placed k) : t.Placed k :=
  ⟨fun hi => h.nodemap.2 (hp.inserted (h.nodes ▸ hi)), fun he => h.nodes.trans (hp.ended (h.ended.1 he))⟩

/-- A step about the node `i` that leaves the destroyers alone. -/
theorem alike_of_node {pc : KernelNode} (hn : t.nodes = s.nodes.set i pc)
    (hm : ∀ k ≠ i, (k ∈ t.nodemap ↔ k ∈ s.nodemap)) (hd : t.destroyers = s.destroyers) (hk : k ≠ i) : Alike s t k :=
  ⟨by rw [hn, List.getElem?_set_ne (Ne.symm hk)], hm k hk, by rw [hd]⟩

private theorem mem_destroyers_set {pc pc' : DestroyerPc} (hj : s.destroyers[j]? = some (i, pc)) (hk : k ≠ i) :
    (k, DestroyerPc.ended) ∈ s.destroyers.set j (i, pc') ↔ (k, DestroyerPc.ended) ∈ s.destroyers := by
  constructor
  · intro h
    exact (List.mem_or_eq_of_mem_set h).resolve_right fun he => hk (congrArg Prod.fst he)
  · intro h
    obtain ⟨m, hm⟩ := List.mem_iff_getElem?.1 h
    have hjm : j ≠ m := by
      rintro rfl
      rw [hj] at hm
      cases hm
      exact hk rfl
    exact List.mem_iff_getElem?.2 ⟨m, by rw [List.getElem?_set_ne hjm, hm]⟩

/-- The step calls `SignalNodeStart`. -/
def Starts (s : LifeState σ) : LifeAct → Prop
  | .node i => s.nodes[i]? = some (.real .spawned)
  | .endpoint i => s.nodes[i]? = some (.external .inserted)
  | _ => False

/-- What a step about the node `i` does to the context. -/
inductive Effect (C : NodeContext σ) (s t : LifeState σ) (i : Nat) (l : LifeAct) : Prop
  | quiet (hc : t.context = s.context) (hi : t.info i = s.info i)
  | signal (g : NodeSignal) (hc : C.signal s.context i g = some t.context) (hstart : g = .start → s.Starts l)
      (hi : s.Placed i → s.Orderly i l → i < s.nodes.length ∧ (s.info i).follow g = some (t.info i))
  | refused (hl : l = .node i) (hpc : s.nodes[i]? = some (.real .spawned))
      (hrefused : C.signalNodeStart s.context i = none) (hc : t.context = s.context)

theorem info_eq {pc : KernelNode} (h : s.nodes[i]? = some pc) : s.info i = pc.info (s.gone i) := by
  unfold info
  rw [h]

private theorem info_set {pc p : KernelNode} (hpc : s.nodes[i]? = some pc) (hn : t.nodes = s.nodes.set i p) :
    t.info i = p.info (t.gone i) :=
  info_eq (by rw [hn, getElem?_set_of_eq_some p hpc])

private theorem info_set_same {pc p : KernelNode} (hpc : s.nodes[i]? = some pc) (hn : t.nodes = s.nodes.set i p)
    (hsame : ∀ b b', p.info b = pc.info b') : t.info i = s.info i := by
  rw [info_set hpc hn, info_eq hpc, hsame]

private theorem Placed.not_gone (h : s.Placed i) (hi : s.nodes[i]? = some (.external .inserted)) : s.gone i = false := by
  have hmem := h.inserted hi
  have hended : (i, DestroyerPc.ended) ∉ s.destroyers := fun he => by
    rw [h.ended he] at hi
    cases hi
  simp [gone, hmem, hended]

/-- A step about the node `i` leaves the other nodes alone. -/
structure Passes (s t : LifeState σ) (i : Nat) (l : LifeAct) : Prop where
  alike : ∀ k ≠ i, Alike s t k
  length : t.nodes.length = s.nodes.length
  placed : s.Placed i → s.Orderly i l → t.Placed i
  destroyers : ∀ d ∈ t.destroyers, d.1 < s.nodes.length ∨ ∃ d' ∈ s.destroyers, d'.1 = d.1

private theorem mem_destroyers_of_set {pc pc' : DestroyerPc} {d : Nat × DestroyerPc} (hj : s.destroyers[j]? = some (i, pc))
    (hd : d ∈ s.destroyers.set j (i, pc')) : ∃ d' ∈ s.destroyers, d'.1 = d.1 := by
  rcases List.mem_or_eq_of_mem_set hd with hd | rfl
  · exact ⟨d, hd, rfl⟩
  · exact ⟨(i, pc), List.mem_iff_getElem?.2 ⟨j, hj⟩, rfl⟩

private theorem passes_of_set {pc p : KernelNode} (hpc : s.nodes[i]? = some pc) (hne : pc ≠ .external .created)
    (hn : t.nodes = s.nodes.set i p) (hd : t.destroyers = s.destroyers)
    (hm : ∀ k ≠ i, (k ∈ t.nodemap ↔ k ∈ s.nodemap)) (hin : p = .external .inserted → i ∈ t.nodemap) : Passes s t i l := by
  have hnew : t.nodes[i]? = some p := by rw [hn, getElem?_set_of_eq_some p hpc]
  refine ⟨fun k hk => alike_of_node hn hm hd hk, by rw [hn, List.length_set], fun hp _ => ⟨fun hi => ?_, fun he => ?_⟩,
    fun d hd' => .inr ⟨d, hd ▸ hd', rfl⟩⟩
  · rw [hnew] at hi
    exact hin (Option.some.inj hi)
  · rw [hd] at he
    rw [hp.ended he] at hpc
    exact absurd (Option.some.inj hpc).symm hne

private theorem internalCreateNode_effect {accepted : Bool} (h : s.internalCreateNode i accepted = some t) :
    Passes s t i l ∧ Effect C s t i l := by
  unfold internalCreateNode at h
  obtain ⟨hpc, h⟩ := Option.ite_none_right_eq_some.1 h
  split_ifs at h <;> cases h
  · refine ⟨passes_of_set hpc (by simp) rfl rfl (fun k hk => by simp [hk]) (by simp),
      .quiet rfl (info_set_same hpc rfl fun _ _ => rfl)⟩
  · refine ⟨passes_of_set hpc (by simp) rfl rfl (fun k hk => Iff.rfl) (by simp),
      .quiet rfl (info_set_same hpc rfl fun _ _ => rfl)⟩

private theorem endpoint_effect (h : s.endpoint C i = some t) :
    Passes s t i (.endpoint i) ∧ Effect C s t i (.endpoint i) := by
  unfold endpoint at h
  split at h
  · rename_i hpc
    cases h
    refine ⟨passes_of_set hpc (by simp) rfl rfl (fun k hk => by simp [hk]) (fun _ => List.mem_cons_self),
      .quiet rfl (info_set_same hpc rfl fun _ _ => rfl)⟩
  · rename_i hpc
    split at h
    · rename_i c hc
      cases h
      refine ⟨passes_of_set hpc (by simp) rfl rfl (fun k hk => Iff.rfl) (by simp),
        .signal .start hc (fun _ => hpc) fun hp _ => ⟨(List.getElem?_eq_some_iff.1 hpc).1, ?_⟩⟩
      have hgone := hp.not_gone hpc
      rw [info_eq hpc, info_set hpc rfl]
      show _ = some (KernelNode.info (s.gone i) _)
      rw [hgone]
      rfl
    · cases h
      refine ⟨passes_of_set hpc (by simp) rfl rfl (fun k hk => Iff.rfl) (by simp),
      .quiet rfl (info_set_same hpc rfl fun _ _ => rfl)⟩
  · cases h

private theorem node_effect (h : s.node C i = some t) : Passes s t i (.node i) ∧ Effect C s t i (.node i) := by
  unfold node at h
  split at h
  · rename_i hpc
    split at h
    · rename_i c hc
      cases h
      refine ⟨passes_of_set hpc (by simp) rfl rfl (fun k hk => Iff.rfl) (by simp),
        .signal .start hc (fun _ => hpc) fun _ _ => ⟨(List.getElem?_eq_some_iff.1 hpc).1, ?_⟩⟩
      rw [info_eq hpc, info_set hpc rfl]
      rfl
    · rename_i hc
      cases h
      exact ⟨passes_of_set hpc (by simp) rfl rfl (fun k hk => Iff.rfl) (by simp), .refused rfl hpc hc rfl⟩
  · rename_i hpc
    cases h
    refine ⟨passes_of_set hpc (by simp) rfl rfl (fun k hk => Iff.rfl) (by simp),
      .quiet rfl (info_set_same hpc rfl fun _ _ => rfl)⟩
  · rename_i hpc
    cases h
    refine ⟨passes_of_set hpc (by simp) rfl rfl (fun k hk => Iff.rfl) (by simp),
      .signal .finish rfl (by simp) fun _ _ => ⟨(List.getElem?_eq_some_iff.1 hpc).1, ?_⟩⟩
    rw [info_eq hpc, info_set hpc rfl]
    rfl
  · rename_i hpc
    cases h
    refine ⟨passes_of_set hpc (by simp) rfl rfl (fun k hk => by simp [nodeTerminated, setNode, hk]) (by simp),
      .quiet rfl (info_set_same hpc rfl fun _ _ => rfl)⟩
  · cases h

/-- A step that changes nothing a life depends on. -/
theorem passes_of_alike (h : ∀ k, Alike s t k) (hlen : t.nodes.length = s.nodes.length) (hc : t.context = s.context)
    (hd : ∀ d ∈ t.destroyers, d.1 < s.nodes.length ∨ ∃ d' ∈ s.destroyers, d'.1 = d.1) :
    Passes s t i l ∧ Effect C s t i l :=
  ⟨⟨fun k _ => h k, hlen, fun hp _ => (h i).placed hp, hd⟩, .quiet hc (h i).info⟩

private theorem destroyer_looking {pc : DestroyerPc} (hj : s.destroyers[j]? = some (i, .looking)) (hpc : pc ≠ .ended) :
    Passes s (s.setDestroyer j i pc) i l ∧ Effect C s (s.setDestroyer j i pc) i l := by
  refine passes_of_alike (fun k => ⟨rfl, Iff.rfl, ?_⟩) rfl rfl fun d hd => .inr (mem_destroyers_of_set hj hd)
  by_cases hk : k = i
  · subst hk
    constructor
    · intro h
      exact (List.mem_or_eq_of_mem_set h).resolve_right fun he => hpc (congrArg Prod.snd he).symm
    · intro h
      obtain ⟨m, hm⟩ := List.mem_iff_getElem?.1 h
      have hjm : j ≠ m := by
        rintro rfl
        rw [hj] at hm
        cases hm
      exact List.mem_iff_getElem?.2 ⟨m, by rw [setDestroyer, List.getElem?_set_ne hjm, hm]⟩
  · exact mem_destroyers_set hj hk

private theorem destroyer_found (hj : s.destroyers[j]? = some (i, .found)) (hl : l = .destroyer j) :
    Passes s { s.setDestroyer j i .ended with context := C.signalNodeEnd s.context i } i l ∧
      Effect C s { s.setDestroyer j i .ended with context := C.signalNodeEnd s.context i } i l := by
  have hmem : (i, DestroyerPc.ended) ∈ s.destroyers.set j (i, .ended) :=
    List.mem_iff_getElem?.2 ⟨j, getElem?_set_of_eq_some _ hj⟩
  subst hl
  refine ⟨⟨fun k hk => ⟨rfl, Iff.rfl, mem_destroyers_set hj hk⟩, rfl, fun hp ho => ⟨hp.inserted, fun _ => (ho hj).1⟩,
    fun d hd => .inr (mem_destroyers_of_set hj hd)⟩,
    .signal .finish rfl (by simp) fun _ ho => ⟨(List.getElem?_eq_some_iff.1 (ho hj).1).1, ?_⟩⟩
  obtain ⟨hpc, hin, hended⟩ := ho hj
  have hbefore : s.gone i = false := by simp [gone, hin, hended]
  rw [info_eq hpc, hbefore]
  have hafter : gone { s.setDestroyer j i .ended with context := C.signalNodeEnd s.context i } i = true :=
    decide_eq_true (.inr hmem)
  rw [info_eq (s := { s.setDestroyer j i .ended with context := C.signalNodeEnd s.context i }) hpc, hafter]
  rfl

private theorem destroyer_ended (hj : s.destroyers[j]? = some (i, .ended)) :
    Passes s ((s.nodeTerminated i).setDestroyer j i .out) i l ∧
      Effect C s ((s.nodeTerminated i).setDestroyer j i .out) i l := by
  have hmem : (i, DestroyerPc.ended) ∈ s.destroyers := List.mem_iff_getElem?.2 ⟨j, hj⟩
  refine ⟨⟨fun k hk => ⟨rfl, by simp [nodeTerminated, setDestroyer, hk], mem_destroyers_set hj hk⟩, rfl,
    fun hp _ => ⟨fun hi => ?_, fun _ => hp.ended hmem⟩, fun d hd => .inr (mem_destroyers_of_set hj hd)⟩,
    .quiet rfl ?_⟩
  · have hcreated := hp.ended hmem
    rw [show s.nodes[i]? = _ from hi] at hcreated
    cases hcreated
  · have hbefore : s.gone i = true := decide_eq_true (.inr hmem)
    have hafter : ((s.nodeTerminated i).setDestroyer j i .out).gone i = true :=
      decide_eq_true (.inl (by simp [nodeTerminated, setDestroyer]))
    unfold info
    rw [hbefore, hafter]
    rfl

private theorem destroyer_effect (h : s.destroyer C j = some t) :
    ∃ i, Passes s t i (.destroyer j) ∧ Effect C s t i (.destroyer j) := by
  unfold destroyer at h
  split at h
  · rename_i i hj
    cases h
    exact ⟨i, destroyer_looking hj (by split_ifs <;> simp)⟩
  · rename_i i hj
    cases h
    exact ⟨i, destroyer_found hj rfl⟩
  · rename_i i hj
    cases h
    exact ⟨i, destroyer_ended hj⟩
  · cases h

/-- Every step is about one node. -/
theorem next_effect (h : s.next C l = some t) :
    ∃ i, Passes s t i l ∧ Effect C s t i l := by
  cases l with
  | internalCreateNode i accepted => exact ⟨i, internalCreateNode_effect h⟩
  | endpoint i => exact ⟨i, endpoint_effect h⟩
  | node i => exact ⟨i, node_effect h⟩
  | destroy i =>
    obtain ⟨⟨-, hlt⟩, ⟨⟩⟩ := Option.ite_none_right_eq_some.1 h
    refine ⟨i, passes_of_alike (fun k => ⟨rfl, Iff.rfl, by simp⟩) rfl rfl fun d hd => ?_⟩
    rcases List.mem_append.1 hd with hd | hd
    · exact .inr ⟨d, hd, rfl⟩
    · rw [List.mem_singleton.1 hd]
      exact .inl hlt
  | destroyer j => exact destroyer_effect h

/-- `Orderly`, but for the nodes of terminated hosts. -/
def Ordered (s : LifeState σ) (down : Nat → Bool) : LifeAct → Prop
  | .destroyer j => ∀ d ∈ s.destroyers[j]?, d.2 = .found → down d.1 = true ∨ s.Endable d.1
  | _ => True

theorem Ordered.orderly {down : Nat → Bool} (h : s.Ordered down l) (hi : down i = false) : s.Orderly i l := by
  cases l with
  | destroyer j =>
    intro hj
    rcases h _ hj rfl with h | h
    · rw [hi] at h
      cases h
    · exact h
  | _ => trivial

instance (down : Nat → Bool) : Decidable (s.Ordered down l) :=
  match l with
  | .destroyer j => inferInstanceAs (Decidable (∀ d ∈ s.destroyers[j]?, d.2 = .found → down d.1 = true ∨ s.Endable d.1))
  | .internalCreateNode _ _ | .endpoint _ | .node _ | .destroy _ => isTrue trivial

instance : Decidable (s.Starts l) :=
  match l with
  | .node i => inferInstanceAs (Decidable (s.nodes[i]? = _))
  | .endpoint i => inferInstanceAs (Decidable (s.nodes[i]? = _))
  | .internalCreateNode _ _ | .destroy _ | .destroyer _ => isFalse id

/-- A node whose key has just been created. -/
def addNode (s : LifeState σ) (context : σ) (pc : KernelNode) : LifeState σ :=
  { s with context := context, nodes := s.nodes ++ [pc] }

theorem addNode_info {context : σ} {pc : KernelNode} (hi : i < s.nodes.length) :
    (s.addNode context pc).info i = s.info i := by
  unfold info addNode
  rw [List.getElem?_append_left hi]
  rfl

end LifeState

end ProcessNetwork
