import Mathlib.Data.List.Nodup
import Mathlib.Data.List.GetD
import Mathlib.Tactic

/-!
# `RandomInstructionGenerator`

The generator of random instructions, with the register of `LFSR.h`.  The probabilities are of an arbitrary type, as only the
ranges that come from them matter.  Where the program exits, `at` throws or an index overflows, there is no generator
afterwards.
-/

namespace ProcessNetwork

/-- What is computed with `double`: the largest value of a register with the feed, and a part of the values. -/
structure Floats (P : Type) where
  maxVal : UInt64 → UInt64
  range : UInt64 → P → UInt32
  toFloat : P → P
  toFloat_toFloat : ∀ p, toFloat (toFloat p) = toFloat p

structure RandomInstructionGenerator (P : Type) where
  feed : UInt64
  seed : UInt64
  probabilityToCreateNode : P
  probabilityToDeleteNode : P
  maxID : UInt32
  createRange : UInt32
  deleteRange : UInt32
  chainRange : UInt32
  noopRange : UInt32
  currentChain : List UInt32
  liveNodes : List UInt32
  debugLevel : Int32

namespace RandomInstructionGenerator

structure State (P : Type) where
  feed : UInt64
  seed : UInt64
  maxID : UInt32
  debugLevel : Int32
  createProb : P
  destroyProb : P
  liveNodes : List UInt32
  deriving DecidableEq

/-- The functions to be overridden.  `DoCreateNode` may ask for the state. -/
inductive Call (P : Type)
  | doCreateNode (newNodeID creatorNodeID : UInt32) (state : State P)
  | doDeleteNode (nodeID : UInt32)
  | doProducerNode (nodeID dstNodeID : UInt32)
  | doTransmuterNode (nodeID srcNodeID dstNodeID : UInt32)
  | doConsumerNode (nodeID srcNodeID : UInt32)
  deriving DecidableEq

inductive Opcode
  | create
  | delete
  | chain
  | noop
  | unknown
  deriving DecidableEq

variable {P : Type}

def getState (g : RandomInstructionGenerator P) : State P :=
  ⟨g.feed, g.seed, g.maxID, g.debugLevel, g.probabilityToCreateNode, g.probabilityToDeleteNode, g.liveNodes⟩

/-- `lfsr.GetResult()`, which is the seed afterwards. -/
def getResult (feed seed : UInt64) : UInt64 := if seed &&& 1 = 1 then seed >>> 1 ^^^ feed else seed >>> 1

def draw (g : RandomInstructionGenerator P) : RandomInstructionGenerator P := { g with seed := getResult g.feed g.seed }

section Ranges

variable (F : Floats P)

/-- `ComputeRanges`.  The program exits when the range for chains is empty. -/
def computeRanges (g : RandomInstructionGenerator P) : Option (RandomInstructionGenerator P) :=
  let numNodes := (UInt32.ofNat g.liveNodes.length).toUInt64
  let maxVal := F.maxVal g.feed
  let createRange := F.range maxVal g.probabilityToCreateNode
  let deleteRange := F.range maxVal g.probabilityToDeleteNode
  let chainRange := ((maxVal - createRange.toUInt64 - deleteRange.toUInt64) / numNodes * numNodes).toUInt32
  let noopRange := (maxVal - createRange.toUInt64 - deleteRange.toUInt64 - chainRange.toUInt64).toUInt32
  if chainRange = 0 then none
  else some { g with
    createRange := createRange, deleteRange := deleteRange, chainRange := chainRange, noopRange := noopRange }

/-- The constructor from a state, with `Initialize`, which takes the probabilities as `float`. -/
def create (state : State P) : Option (RandomInstructionGenerator P) :=
  computeRanges F
    { feed := state.feed
      seed := state.seed
      probabilityToCreateNode := F.toFloat state.createProb
      probabilityToDeleteNode := F.toFloat state.destroyProb
      maxID := state.maxID
      createRange := 0
      deleteRange := 0
      chainRange := 0
      noopRange := 0
      currentChain := []
      liveNodes := state.liveNodes
      debugLevel := state.debugLevel }

/-- The state with the nodes up to `numNodes`. -/
def State.initial (feed seed : UInt64) (debugLevel : Int32) (createProb destroyProb : P) (numNodes : UInt32) : State P :=
  ⟨feed, seed, numNodes, debugLevel, createProb, destroyProb, (List.range numNodes.toNat).map UInt32.ofNat⟩

/-- The calls of an operation, and the generator after it. -/
abbrev Outcome (P : Type) := List (Call P) × Option (RandomInstructionGenerator P)

/-- What is done next, while the program runs. -/
def Outcome.andThen (x : Outcome P) (f : RandomInstructionGenerator P → Outcome P) : Outcome P :=
  match x.2 with
  | none => x
  | some g => (x.1 ++ (f g).1, (f g).2)

/-- The first `n` calls of the loop of `EndCurrentChain`. -/
def transmuters (currentChain : List UInt32) (n : ℕ) : List (Call P) :=
  (List.range' 1 n).map fun idx =>
    .doTransmuterNode (currentChain.getD idx 0) (currentChain.getD (idx - 1) 0) (currentChain.getD (idx + 1) 0)

/-- `EndCurrentChain`.  The step of `int idx` past `2 ^ 31 - 1` is undefined.  From the debug level 1 on there is a
loop before
the calls, which prints the chain with the same index. -/
def endCurrentChain (g : RandomInstructionGenerator P) : Outcome P :=
  let chain := g.currentChain
  if chain.length ≤ 1 then ([], some { g with currentChain := [] })
  else if chain.length ≤ 2 ^ 31 then
    (.doProducerNode (chain.getD 0 0) (chain.getD 1 0) :: transmuters chain (chain.length - 2) ++
      [.doConsumerNode (chain.getD (chain.length - 1) 0) (chain.getD (chain.length - 2) 0)],
      some { g with currentChain := [] })
  else if 1 ≤ g.debugLevel then ([], none)
  else (.doProducerNode (chain.getD 0 0) (chain.getD 1 0) :: transmuters chain (2 ^ 31 - 1), none)

def handleChainOp (g : RandomInstructionGenerator P) (nodeID : UInt32) : Outcome P :=
  if nodeID ∈ g.currentChain then g.endCurrentChain
  else if nodeID ∉ g.liveNodes then ([], some g)
  else ([], some { g with currentChain := g.currentChain ++ [nodeID] })

def handleCreateOp (g : RandomInstructionGenerator P) : Outcome P :=
  g.endCurrentChain.andThen fun g =>
    match g.liveNodes with
    | [] => ([], none)
    | creatorNodeID :: _ =>
      match computeRanges F { g with maxID := g.maxID + 1, liveNodes := g.liveNodes ++ [g.maxID + 1] } with
      | none => ([], none)
      | some g' => ([.doCreateNode g'.maxID creatorNodeID g'.getState], some g')

def handleDeleteOp (g : RandomInstructionGenerator P) (nodeID : UInt32) : Outcome P :=
  g.endCurrentChain.andThen fun g =>
    if nodeID ∉ g.liveNodes ∨ g.liveNodes.length = 1 then ([], some g)
    else ([.doDeleteNode nodeID], computeRanges F { g with liveNodes := g.liveNodes.erase nodeID })

/-- The operation that the pseudo-random number selects. -/
def opcode (g : RandomInstructionGenerator P) (prnum : UInt64) : Opcode :=
  if 0 < g.createRange ∧ prnum ≤ g.createRange.toUInt64 then .create
  else if 0 < g.deleteRange ∧ prnum - g.createRange.toUInt64 ≤ g.deleteRange.toUInt64 then .delete
  else if prnum - g.createRange.toUInt64 - g.deleteRange.toUInt64 ≤ g.chainRange.toUInt64 then .chain
  else if prnum - g.createRange.toUInt64 - g.deleteRange.toUInt64 - g.chainRange.toUInt64 ≤ g.noopRange.toUInt64 then .noop
  else .unknown

/-- The index of the node to be deleted, after the second draw. -/
def deleteIndex (g : RandomInstructionGenerator P) (prnum : UInt64) : ℕ := (prnum - 1).toNat % g.liveNodes.length

def chainIndex (g : RandomInstructionGenerator P) (prnum : UInt64) : ℕ :=
  (prnum - g.createRange.toUInt64 - g.deleteRange.toUInt64 - 1).toNat % g.liveNodes.length

/-- `RunOnce`. -/
def runOnce (g : RandomInstructionGenerator P) : Outcome P :=
  match g.opcode g.draw.seed with
  | .create => handleCreateOp F g.draw
  | .delete =>
    match g.liveNodes[g.deleteIndex g.draw.draw.seed]? with
    | none => ([], none)
    | some nodeID => handleDeleteOp F g.draw.draw nodeID
  | .chain =>
    match g.liveNodes[g.chainIndex g.draw.seed]? with
    | none => ([], none)
    | some nodeID => handleChainOp g.draw nodeID
  | .noop => ([], some g.draw)
  | .unknown => ([], some g.draw)

end Ranges

end RandomInstructionGenerator

end ProcessNetwork
