import ProcessNetwork.D4RNode
import ProcessNetwork.Lib.Machine

/-!
# Nodes that block on queues

Any number of nodes, each with one thread, and the queues between them.  A thread is outside of `ReadBlock` and `WriteBlock`
and works on the queues of its node, or it is inside: it reads the public tag of the node at the other end, calls `Block` or
`Transmit` with it, and signals the queues of its node, all with the queue unlocked and `incomm` set; or it waits with the
lock released.

A section under the lock of a queue, a read of a tag, a `Block` or `Transmit` and the signal to one queue are steps of their
own.  Whether a queue is blocked for one of its ends is up to the queue: the node at that end can make it blocked, and the
other one can make it not blocked.  Every change that a waiting thread looks at is followed by `Signal` under the lock, so
`cond` is left out.

Both ends of a queue have their nodes from the start.  The wait for a missing node at the beginning of `ReadBlock` and
`WriteBlock` (`if (!writer)`, `if (!reader)`) is left out: no tag is read and no `Block` is made before it is over.
-/

namespace ProcessNetwork.D4R

open Registry (Side)

/-- The nodes with their keys, the queues with their ends, and the queues that a node signals. -/
structure Topology (ι κ : Type) where
  key : ι → UInt64
  key_injective : Function.Injective key
  node : κ → Side → ι
  /-- `readerlist` and `writerlist`. -/
  links : ι → List (κ × Side)
  mem_links : ∀ q side, (q, side) ∈ links (node q side)

/-- `QueueBase`. -/
structure Queue where
  /-- `ReadBlocked` and `WriteBlocked`. -/
  blocked : Side → Bool := fun _ => false
  /-- `readtagchanged` and `writetagchanged`. -/
  tagchanged : Side → Bool := fun _ => false
  incomm : Bool := false

inductive Op
  | block (qsize : UInt32)
  | transmit
deriving DecidableEq, Repr

/-- Where the thread of a node is. -/
inductive Pc (κ : Type)
  /-- Outside. -/
  | running
  /-- `while (incomm) Wait()`. -/
  | entering (q : κ) (side : Side) (op : Op)
  /-- Before `GetPublicTag` of the other node. -/
  | reading (q : κ) (side : Side) (op : Op)
  | applying (q : κ) (side : Side) (op : Op) (t : Tag)
  /-- In `SignalTagChanged`, with the queues that are still to be signalled. -/
  | signaling (q : κ) (side : Side) (detect : Bool) (rest : List (κ × Side))
  /-- In `Wait()` of the loop. -/
  | waiting (q : κ) (side : Side)
deriving DecidableEq, Repr

/-- The queue on which the node blocks, and its end there. -/
def Pc.at {κ : Type} : Pc κ → Option (κ × Side)
  | running => none
  | entering q side _ | reading q side _ | applying q side _ _ | signaling q side _ _ | waiting q side => some (q, side)

/-- The same once `Block` has set the tags. -/
def Pc.post {κ : Type} : Pc κ → Option (κ × Side)
  | running | entering _ _ (.block _) | reading _ _ (.block _) | applying _ _ (.block _) _ => none
  | entering q side .transmit | reading q side .transmit | applying q side .transmit _ => some (q, side)
  | signaling q side _ _ | waiting q side => some (q, side)

def Pc.pending {κ : Type} : Pc κ → List (κ × Side)
  | signaling _ _ _ rest => rest
  | _ => []

structure State (ι κ : Type) where
  node : ι → Node
  queue : κ → Queue
  pc : ι → Pc κ

inductive Act (ι κ : Type)
  /-- A thread outside asks for more or less, and so its end of the queue is blocked or is not. -/
  | request (i : ι) (q : κ) (side : Side) (b : Bool)
  /-- A thread outside gives the other end what it has asked for. -/
  | serve (i : ι) (q : κ) (side : Side)
  | readBlock (i : ι) (q : κ)
  | writeBlock (i : ι) (q : κ) (qsize : UInt32)
  /-- A thread inside goes on; `grown` says whether a `Detect` makes enough room. -/
  | go (i : ι) (grown : Bool)

namespace State

variable {ι κ : Type}

def blocked (σ : State ι κ) (q : κ) (side : Side) : Bool := (σ.queue q).blocked side

def flag (σ : State ι κ) (q : κ) (side : Side) : Bool := (σ.queue q).tagchanged side

section Threads

variable [DecidableEq ι]

def setPc (i : ι) (pc : Pc κ) (σ : State ι κ) : State ι κ := { σ with pc := Function.update σ.pc i pc }

def setNode (i : ι) (n : Node) (σ : State ι κ) : State ι κ := { σ with node := Function.update σ.node i n }

variable (i : ι) (pc : Pc κ) (n : Node) (σ : State ι κ)

@[simp] theorem setPc_node : (σ.setPc i pc).node = σ.node := rfl

@[simp] theorem setPc_pc : (σ.setPc i pc).pc = Function.update σ.pc i pc := rfl

@[simp] theorem setPc_blocked : (σ.setPc i pc).blocked = σ.blocked := rfl

@[simp] theorem setPc_flag : (σ.setPc i pc).flag = σ.flag := rfl

@[simp] theorem setNode_node : (σ.setNode i n).node = Function.update σ.node i n := rfl

@[simp] theorem setNode_pc : (σ.setNode i n).pc = σ.pc := rfl

@[simp] theorem setNode_blocked : (σ.setNode i n).blocked = σ.blocked := rfl

@[simp] theorem setNode_flag : (σ.setNode i n).flag = σ.flag := rfl

end Threads

section Queues

variable [DecidableEq κ]

def setQueue (q : κ) (f : Queue → Queue) (σ : State ι κ) : State ι κ :=
  { σ with queue := Function.update σ.queue q (f (σ.queue q)) }

def setBlocked (q : κ) (side : Side) (b : Bool) : State ι κ → State ι κ :=
  setQueue q fun d => { d with blocked := Function.update d.blocked side b }

def setTagchanged (q : κ) (side : Side) (b : Bool) : State ι κ → State ι κ :=
  setQueue q fun d => { d with tagchanged := Function.update d.tagchanged side b }

def setIncomm (q : κ) (b : Bool) : State ι κ → State ι κ := setQueue q fun d => { d with incomm := b }

variable (q : κ) (side : Side) (b : Bool) (σ : State ι κ)

@[simp] theorem setBlocked_node : (σ.setBlocked q side b).node = σ.node := rfl

@[simp] theorem setBlocked_pc : (σ.setBlocked q side b).pc = σ.pc := rfl

@[simp] theorem setTagchanged_node : (σ.setTagchanged q side b).node = σ.node := rfl

@[simp] theorem setTagchanged_pc : (σ.setTagchanged q side b).pc = σ.pc := rfl

@[simp] theorem setIncomm_node : (σ.setIncomm q b).node = σ.node := rfl

@[simp] theorem setIncomm_pc : (σ.setIncomm q b).pc = σ.pc := rfl

private theorem setBlocked_blocked (q' : κ) (side' : Side) :
    (σ.setBlocked q side b).blocked q' side' = if q' = q ∧ side' = side then b else σ.blocked q' side' := by
  unfold setBlocked setQueue blocked
  by_cases hq : q' = q
  · subst hq
    simp [Function.update_apply]
  · simp [hq]

@[simp] theorem setBlocked_flag : (σ.setBlocked q side b).flag = σ.flag := by
  funext q' side'
  unfold setBlocked setQueue flag
  by_cases hq : q' = q
  · subst hq
    simp
  · simp [hq]

@[simp] theorem setTagchanged_blocked : (σ.setTagchanged q side b).blocked = σ.blocked := by
  funext q' side'
  unfold setTagchanged setQueue blocked
  by_cases hq : q' = q
  · subst hq
    simp
  · simp [hq]

private theorem setTagchanged_flag (q' : κ) (side' : Side) :
    (σ.setTagchanged q side b).flag q' side' = if q' = q ∧ side' = side then b else σ.flag q' side' := by
  unfold setTagchanged setQueue flag
  by_cases hq : q' = q
  · subst hq
    simp [Function.update_apply]
  · simp [hq]

@[simp] theorem setIncomm_blocked : (σ.setIncomm q b).blocked = σ.blocked := by
  funext q' side'
  unfold setIncomm setQueue blocked
  by_cases hq : q' = q
  · subst hq
    simp
  · simp [hq]

@[simp] theorem setIncomm_flag : (σ.setIncomm q b).flag = σ.flag := by
  funext q' side'
  unfold setIncomm setQueue flag
  by_cases hq : q' = q
  · subst hq
    simp
  · simp [hq]

end Queues

end State

section Machine

variable {ι κ : Type} [DecidableEq ι] [DecidableEq κ]

namespace State

/-- The start of an exchange of tags. -/
def comm (i : ι) (q : κ) (side : Side) (op : Op) (σ : State ι κ) : State ι κ :=
  if (σ.queue q).incomm then σ.setPc i (.entering q side op) else (σ.setIncomm q true).setPc i (.reading q side op)

/-- `ReadBlock` and `WriteBlock`, up to the first exchange. -/
def blockOn (i : ι) (q : κ) (side : Side) (qsize : UInt32) (σ : State ι κ) : State ι κ :=
  if (σ.queue q).blocked side then (σ.setTagchanged q side.other false).comm i q side (.block qsize) else σ

/-- A pass of the loop of `ReadBlock` and `WriteBlock`. -/
def loop (i : ι) (q : κ) (side : Side) (σ : State ι κ) : State ι κ :=
  if (σ.queue q).blocked side then
    if (σ.queue q).tagchanged side.other then (σ.setTagchanged q side.other false).comm i q side .transmit
    else σ.setPc i (.waiting q side)
  else σ.setPc i .running

def readBlock (i : ι) (q : κ) : State ι κ → State ι κ := blockOn i q .reader (-1)

def writeBlock (i : ι) (q : κ) (qsize : UInt32) : State ι κ → State ι κ := blockOn i q .writer qsize

/-- The end of an exchange: a detection at the reader throws, and at the writer it calls `Detect`. -/
def finish (i : ι) (q : κ) (side : Side) (detect grown : Bool) (σ : State ι κ) : State ι κ :=
  let σ := σ.setIncomm q false
  match detect, side with
  | true, .reader => σ.setPc i .running
  | true, .writer => if grown then (σ.setBlocked q .writer false).loop i q .writer else σ.loop i q .writer
  | false, side => σ.loop i q side

/-- A thread inside goes on. -/
def go (τ : Topology ι κ) (i : ι) (grown : Bool) (σ : State ι κ) : Option (State ι κ) :=
  match σ.pc i with
  | .running => none
  | .entering q side op => if (σ.queue q).incomm then none else some ((σ.setIncomm q true).setPc i (.reading q side op))
  | .reading q side op => some (σ.setPc i (.applying q side op (σ.node (τ.node q side.other)).publicTag))
  | .applying q side (.block qsize) t =>
    some ((σ.setNode i ((σ.node i).block t qsize)).setPc i (.signaling q side false (τ.links i)))
  | .applying q side .transmit t =>
    let r := (σ.node i).transmit t
    some ((σ.setNode i r.node).setPc i (.signaling q side r.detect (if r.changed then τ.links i else [])))
  | .signaling q side detect ((q', side') :: rest) =>
    some ((σ.setTagchanged q' side' true).setPc i (.signaling q side detect rest))
  | .signaling q side detect [] => some (σ.finish i q side detect grown)
  | .waiting q side => some (σ.loop i q side)

end State

open State

def next (τ : Topology ι κ) (σ : State ι κ) : Act ι κ → Option (State ι κ)
  | .request i q side b =>
    if σ.pc i = .running ∧ τ.node q side = i then some (σ.setBlocked q side b) else none
  | .serve i q side =>
    if σ.pc i = .running ∧ τ.node q side = i then some (σ.setBlocked q side.other false) else none
  | .readBlock i q => if σ.pc i = .running ∧ τ.node q .reader = i then some (σ.readBlock i q) else none
  | .writeBlock i q qsize => if σ.pc i = .running ∧ τ.node q .writer = i then some (σ.writeBlock i q qsize) else none
  | .go i grown => σ.go τ i grown

/-- Nodes that have not blocked yet; the flags can be any. -/
def machine (τ : Topology ι κ) : Machine (State ι κ) (Act ι κ) where
  init σ := (∀ i, σ.node i = .create (τ.key i)) ∧ (∀ i, σ.pc i = .running) ∧ ∀ q, (σ.queue q).incomm = false
  next := next τ

/-! ### What a step does -/

namespace State

variable {τ : Topology ι κ} {σ σ' : State ι κ} {i : ι} {q : κ} {side : Side} {op : Op} {a : Act ι κ}

/-- The thread waits for `incomm`, or has set it. -/
theorem comm_cases (i : ι) (q : κ) (side : Side) (op : Op) (σ : State ι κ) :
    (σ.comm i q side op).node = σ.node ∧ (σ.comm i q side op).blocked = σ.blocked ∧
      (σ.comm i q side op).flag = σ.flag ∧ ∃ pc, (pc = .entering q side op ∨ pc = .reading q side op) ∧
        (σ.comm i q side op).pc = Function.update σ.pc i pc := by
  unfold comm
  split_ifs
  · exact ⟨rfl, rfl, rfl, _, .inl rfl, rfl⟩
  · exact ⟨rfl, setIncomm_blocked .., setIncomm_flag .., _, .inr rfl, rfl⟩

/-- The thread of the node is before a pass of the loop. -/
def Passing (pc : Pc κ) (q : κ) (side : Side) : Prop :=
  pc = .waiting q side ∨ ∃ detect, pc = .signaling q side detect [] ∧ (detect = true → side = .writer)

/-- A step of the thread of a node, with what it changes. -/
inductive Step (τ : Topology ι κ) (σ σ' : State ι κ) (i : ι) : Prop
  | request (q : κ) (side side' : Side) (b : Bool) (hpc : σ.pc i = .running) (hend : τ.node q side = i)
    (hside : side' = side ∨ side' = side.other ∧ b = false) (hnode : σ'.node = σ.node) (hpc' : σ'.pc = σ.pc)
    (hblocked : ∀ q' s', σ'.blocked q' s' = if q' = q ∧ s' = side' then b else σ.blocked q' s')
    (hflag : σ'.flag = σ.flag)
  | idle (hpc : σ.pc i = .running) (heq : σ' = σ)
  | begins (q : κ) (side : Side) (qsize : UInt32) (pc : Pc κ) (hpc : σ.pc i = .running) (hend : τ.node q side = i)
    (hb : σ.blocked q side = true) (hop : pc = .entering q side (.block qsize) ∨ pc = .reading q side (.block qsize))
    (hnode : σ'.node = σ.node) (hpc' : σ'.pc = Function.update σ.pc i pc) (hblocked : σ'.blocked = σ.blocked)
    (hflag : ∀ q' s', σ'.flag q' s' = if q' = q ∧ s' = side.other then false else σ.flag q' s')
  | enters (q : κ) (side : Side) (op : Op) (hpc : σ.pc i = .entering q side op) (hnode : σ'.node = σ.node)
    (hpc' : σ'.pc = Function.update σ.pc i (.reading q side op)) (hblocked : σ'.blocked = σ.blocked)
    (hflag : σ'.flag = σ.flag)
  | reads (q : κ) (side : Side) (op : Op) (hpc : σ.pc i = .reading q side op) (hnode : σ'.node = σ.node)
    (hpc' : σ'.pc = Function.update σ.pc i (.applying q side op (σ.node (τ.node q side.other)).publicTag))
    (hblocked : σ'.blocked = σ.blocked) (hflag : σ'.flag = σ.flag)
  | blocks (q : κ) (side : Side) (qsize : UInt32) (t : Tag) (hpc : σ.pc i = .applying q side (.block qsize) t)
    (hnode : σ'.node = Function.update σ.node i ((σ.node i).block t qsize))
    (hpc' : σ'.pc = Function.update σ.pc i (.signaling q side false (τ.links i))) (hblocked : σ'.blocked = σ.blocked)
    (hflag : σ'.flag = σ.flag)
  | transmits (q : κ) (side : Side) (t : Tag) (hpc : σ.pc i = .applying q side .transmit t)
    (hnode : σ'.node = Function.update σ.node i ((σ.node i).transmit t).node)
    (hpc' : σ'.pc = Function.update σ.pc i (.signaling q side ((σ.node i).transmit t).detect
      (if ((σ.node i).transmit t).changed then τ.links i else [])))
    (hblocked : σ'.blocked = σ.blocked) (hflag : σ'.flag = σ.flag)
  | signals (q q' : κ) (side side' : Side) (detect : Bool) (rest : List (κ × Side))
    (hpc : σ.pc i = .signaling q side detect ((q', side') :: rest)) (hnode : σ'.node = σ.node)
    (hpc' : σ'.pc = Function.update σ.pc i (.signaling q side detect rest)) (hblocked : σ'.blocked = σ.blocked)
    (hflag : ∀ r s, σ'.flag r s = if r = q' ∧ s = side' then true else σ.flag r s)
  | leaves (q : κ) (side : Side) (hpc : Passing (σ.pc i) q side) (hb : σ.blocked q side = false)
    (hnode : σ'.node = σ.node) (hpc' : σ'.pc = Function.update σ.pc i .running) (hblocked : σ'.blocked = σ.blocked)
    (hflag : σ'.flag = σ.flag)
  | again (q : κ) (side : Side) (pc : Pc κ) (hpc : Passing (σ.pc i) q side) (hb : σ.blocked q side = true)
    (hop : pc = .entering q side .transmit ∨ pc = .reading q side .transmit) (hnode : σ'.node = σ.node)
    (hpc' : σ'.pc = Function.update σ.pc i pc) (hblocked : σ'.blocked = σ.blocked)
    (hflag : ∀ q' s', σ'.flag q' s' = if q' = q ∧ s' = side.other then false else σ.flag q' s')
  | waits (q : κ) (side : Side) (hpc : Passing (σ.pc i) q side) (hb : σ.blocked q side = true)
    (hf : σ.flag q side.other = false) (hnode : σ'.node = σ.node)
    (hpc' : σ'.pc = Function.update σ.pc i (.waiting q side)) (hblocked : σ'.blocked = σ.blocked)
    (hflag : σ'.flag = σ.flag)
  /-- The detection ends the block: by the exception, or because `Detect` has made room. -/
  | resolves (q : κ) (side : Side) (hpc : σ.pc i = .signaling q side true []) (hnode : σ'.node = σ.node)
    (hpc' : σ'.pc = Function.update σ.pc i .running)
    (hblocked : ∀ q' s', σ'.blocked q' s' = true → σ.blocked q' s' = true)
    (hsame : ∀ q' s', (q', s') ≠ (q, side) → σ'.blocked q' s' = σ.blocked q' s') (hflag : σ'.flag = σ.flag)

private theorem loop_step (hpc : Passing (σ.pc i) q side) (hnode : σ'.node = σ.node) (hpc' : σ'.pc = σ.pc)
    (hblocked : σ'.blocked = σ.blocked) (hflag : σ'.flag = σ.flag) : Step τ σ (σ'.loop i q side) i := by
  unfold loop
  split_ifs with hb hf
  · obtain ⟨hnode', hblocked', hflag', pc, hop, hpc''⟩ :=
      comm_cases i q side .transmit (σ'.setTagchanged q side.other false)
    have hb' : σ.blocked q side = true := hblocked ▸ hb
    rw [setTagchanged_pc, hpc'] at hpc''
    refine .again q side pc hpc hb' hop (hnode'.trans hnode) hpc''
      ((hblocked'.trans (setTagchanged_blocked ..)).trans hblocked) fun q' s' => ?_
    rw [hflag', setTagchanged_flag, hflag]
  · have hb' : σ.blocked q side = true := hblocked ▸ hb
    have hf' : σ.flag q side.other = false := hflag ▸ Bool.eq_false_iff.2 hf
    have hwaits : (σ'.setPc i (.waiting q side)).pc = Function.update σ.pc i (.waiting q side) := by
      rw [setPc_pc, hpc']
    exact .waits q side hpc hb' hf' hnode hwaits hblocked hflag
  · have hb' : σ.blocked q side = false := hblocked ▸ Bool.eq_false_iff.2 hb
    have hleaves : (σ'.setPc i .running).pc = Function.update σ.pc i .running := by
      rw [setPc_pc, hpc']
    exact .leaves q side hpc hb' hnode hleaves hblocked hflag

private theorem finish_step {detect : Bool} (hpc : σ.pc i = .signaling q side detect []) (grown : Bool) :
    Step τ σ (σ.finish i q side detect grown) i := by
  have hloop (hside : detect = true → side = .writer) : Step τ σ ((σ.setIncomm q false).loop i q side) i :=
    loop_step (.inr ⟨detect, hpc, hside⟩) rfl rfl (setIncomm_blocked ..) (setIncomm_flag ..)
  unfold finish
  cases detect with
  | false => exact hloop fun h => by cases h
  | true =>
    cases side with
    | reader =>
      refine .resolves q .reader hpc rfl rfl (fun q' s' hb => ?_) (fun q' s' _ => ?_) (setIncomm_flag ..)
      · rwa [setPc_blocked, setIncomm_blocked] at hb
      · rw [setPc_blocked, setIncomm_blocked]
    | writer =>
      cases grown with
      | false => exact hloop fun _ => rfl
      | true =>
        -- `Detect` has made room, so the loop ends
        have hfree : ((σ.setIncomm q false).setBlocked q .writer false).blocked q .writer = false := by
          rw [setBlocked_blocked, if_pos ⟨rfl, rfl⟩]
        have hfree' : (((σ.setIncomm q false).setBlocked q .writer false).queue q).blocked .writer = false := hfree
        have hleave : ((σ.setIncomm q false).setBlocked q .writer false).loop i q .writer =
            ((σ.setIncomm q false).setBlocked q .writer false).setPc i .running := by
          rw [loop, hfree']
          rfl
        dsimp only
        rw [if_pos rfl, hleave]
        refine .resolves q .writer hpc rfl rfl (fun q' s' hb => ?_) (fun q' s' hne => ?_) ?_
        · rw [setPc_blocked, setBlocked_blocked, setIncomm_blocked] at hb
          split_ifs at hb
          exact hb
        · rw [setPc_blocked, setBlocked_blocked, setIncomm_blocked, if_neg fun h => hne (Prod.ext h.1 h.2)]
        · rw [setPc_flag, setBlocked_flag, setIncomm_flag]

private theorem blockOn_step {qsize : UInt32} (hpc : σ.pc i = .running) (hend : τ.node q side = i) :
    Step τ σ (σ.blockOn i q side qsize) i := by
  unfold blockOn
  split_ifs with hb
  · obtain ⟨hnode, hblocked, hflag, pc, hop, hpc'⟩ :=
      comm_cases i q side (.block qsize) (σ.setTagchanged q side.other false)
    refine .begins q side qsize pc hpc hend hb hop hnode hpc' (hblocked.trans (setTagchanged_blocked ..)) fun q' s' => ?_
    rw [hflag, setTagchanged_flag]
  · exact .idle hpc rfl

private theorem step_of_go {grown : Bool} (h : σ.go τ i grown = some σ') : Step τ σ σ' i := by
  unfold go at h
  split at h
  · cases h
  · rename_i q side op hpc
    split_ifs at h
    cases h
    exact .enters q side op hpc rfl rfl (setIncomm_blocked ..) (setIncomm_flag ..)
  · rename_i q side op hpc
    cases h
    exact .reads q side op hpc rfl rfl rfl rfl
  · rename_i q side qsize t hpc
    cases h
    exact .blocks q side qsize t hpc rfl rfl rfl rfl
  · rename_i q side t hpc
    cases h
    exact .transmits q side t hpc rfl rfl rfl rfl
  · rename_i q side detect q' side' rest hpc
    cases h
    refine .signals q q' side side' detect rest hpc rfl rfl (setTagchanged_blocked ..) fun r s => ?_
    rw [setPc_flag, setTagchanged_flag]
  · rename_i q side detect hpc
    cases h
    exact finish_step hpc grown
  · rename_i q side hpc
    cases h
    exact loop_step (.inl hpc) rfl rfl rfl rfl

end State

/-- The node whose thread takes the step. -/
def Act.node : Act ι κ → ι
  | .request i .. | .serve i .. | .readBlock i _ | .writeBlock i .. | .go i _ => i

theorem step_of_next {τ : Topology ι κ} {σ σ' : State ι κ} {a : Act ι κ} (h : next τ σ a = some σ') :
    Step τ σ σ' a.node := by
  cases a with
  | request i q side b =>
    rw [next] at h
    split_ifs at h with hi
    cases h
    exact .request q side side b hi.1 hi.2 (.inl rfl) rfl rfl (setBlocked_blocked q side b σ) (setBlocked_flag ..)
  | serve i q side =>
    rw [next] at h
    split_ifs at h with hi
    cases h
    exact .request q side side.other false hi.1 hi.2 (.inr ⟨rfl, rfl⟩) rfl rfl (setBlocked_blocked q side.other false σ)
      (setBlocked_flag ..)
  | readBlock i q =>
    rw [next] at h
    split_ifs at h with hi
    cases h
    exact blockOn_step hi.1 hi.2
  | writeBlock i q qsize =>
    rw [next] at h
    split_ifs at h with hi
    cases h
    exact blockOn_step hi.1 hi.2
  | go i grown => exact step_of_go h

end Machine

end ProcessNetwork.D4R
