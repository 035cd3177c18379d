import ProcessNetwork.RandomInstructionGenerator
import ProcessNetwork.JSONVariant

/-!
# `RandomInstructionNode`

The node that runs a generator of random instructions.  A node that it creates is given its state as JSON text.  What a node
does with queues is left out, and so are the names of the kernels beyond the state.
-/

namespace ProcessNetwork

/-- The numbers of a `Variant`, which are `long double`: how a `double` is converted to one, and one to a `double` or to an
integer. -/
structure LongDoubles (N P : Type) where
  format : NumberFormat N
  numbers : JSON.Numbers N
  double : P → N
  toDouble : N → P
  toInteger : N → Int
  /-- The default `0.01` of the probabilities. -/
  hundredth : P

structure RINState (P : Type) where
  nodeID : UInt32
  iterations : UInt32
  kernelnames : List (List Byte)
  state : RandomInstructionGenerator.State P
  deriving DecidableEq

namespace RINState

variable {N P : Type} (D : LongDoubles N P)

/-- An object whose members are set one after the other. -/
def withMembers (members : List (List Byte × Variant N)) : Variant N :=
  .object (members.foldl (fun m e => Dictionary.insert e.1 e.2 m) [])

/-- The variant of `ToJSON`. -/
def toVariant (r : RINState P) : Variant N :=
  let integer (i : Int) : Variant N := .number (D.numbers.ofInteger i)
  let rigstate := withMembers
    [(bytes "feed", integer r.state.feed.toNat),
      (bytes "seed", integer r.state.seed.toNat),
      (bytes "debugLevel", integer r.state.debugLevel.toInt),
      (bytes "maxID", integer r.state.maxID.toNat),
      (bytes "createProb", .number (D.double r.state.createProb)),
      (bytes "destroyProb", .number (D.double r.state.destroyProb)),
      (bytes "liveNodes", .array (r.state.liveNodes.map fun id => integer id.toNat))]
  withMembers
    [(bytes "nodeID", integer r.nodeID.toNat),
      (bytes "iterations", integer r.iterations.toNat),
      (bytes "kernelnames", .array (r.kernelnames.map .string)),
      (bytes "state", rigstate)]

def toJSON (r : RINState P) : List Byte := JSON.toJSON D.format false (r.toVariant D)

section Parse

variable [Zero N] [One N]

/-- The conversion to an integer of `AsNumber`, `AsUnsigned` and `AsInt`, before it is cut to the type. -/
def asInteger (v : Variant N) : Option Int := (v.asLongDouble D.format).map D.toInteger

def asUnsigned (v : Variant N) : Option UInt32 := (asInteger D v).map UInt32.ofInt

def asLFSR (v : Variant N) : Option UInt64 := (asInteger D v).map UInt64.ofInt

def asDouble (v : Variant N) : Option P := (v.asLongDouble D.format).map D.toDouble

/-- `AsArray` of a value that must not change. -/
def constArray : Variant N → Option (List (Variant N))
  | .array l => some l
  | _ => none

/-- The state that the member `state` has. -/
def readState (s : Variant N) : Option (RandomInstructionGenerator.State P) := do
  let feed ← asLFSR D (s.member (bytes "feed"))
  let seed ← asLFSR D (s.member (bytes "seed"))
  let maxID ← asUnsigned D (s.member (bytes "maxID"))
  let createProb ← asDouble D (s.member (bytes "createProb"))
  let destroyProb ← asDouble D (s.member (bytes "destroyProb"))
  let debugLevel ← asInteger D (s.member (bytes "debugLevel"))
  let liveNodes ← (s.member (bytes "liveNodes")).asArray
  let liveNodes ← liveNodes.mapM (asUnsigned D)
  some ⟨feed, seed, maxID, Int32.ofInt debugLevel, createProb, destroyProb, liveNodes⟩

/-- A member that is read when it is a number. -/
def readNumber {α : Type} (args : Variant N) (k : List Byte) (read : Variant N → Option α) (default : α) : Option α :=
  if (args.member k).getType = .numberType then read (args.member k) else some default

/-- The state for `numNodes` nodes, when there is none in the arguments. -/
def defaultState (args : Variant N) : Option (RandomInstructionGenerator.State P) := do
  let feed ← readNumber args (bytes "feed") (asLFSR D) 0xeb979d48
  let seed ← readNumber args (bytes "seed") (asLFSR D) 1
  let debugLevel ← readNumber args (bytes "debugLevel") (asInteger D) 0
  let createProb ← readNumber args (bytes "createProb") (asDouble D) D.hundredth
  let destroyProb ← readNumber args (bytes "destroyProb") (asDouble D) D.hundredth
  let numNodes ← asUnsigned D (args.member (bytes "numNodes"))
  some (.initial feed seed (Int32.ofInt debugLevel) createProb destroyProb numNodes)

def stateOf (args : Variant N) : Option (RandomInstructionGenerator.State P) :=
  if (args.member (bytes "state")).getType = .objectType then readState D (args.member (bytes "state"))
  else defaultState D args

/-- The constructor from the arguments of a node, which must be an object. -/
def ofVariant (args : Variant N) : Option (RINState P) := do
  let nodeID ← (args.constMember (bytes "nodeID")).bind (asUnsigned D)
  let iterations ← asUnsigned D (args.member (bytes "iterations"))
  let kernelnames ← constArray (args.member (bytes "kernelnames"))
  let kernelnames ← kernelnames.mapM (Variant.asString D.format)
  let state ← stateOf D args
  some ⟨nodeID, iterations, kernelnames, state⟩

/-- What `Create` of the factory makes of the parameter of the node. -/
def ofJSON (param : List Byte) : Option (RINState P) :=
  match JSON.variantFromJSON D.numbers param with
  | .ok args => ofVariant D args
  | .error _ => none

end Parse

end RINState

structure RandomInstructionNode (P : Type) where
  generator : RandomInstructionGenerator P
  myID : UInt32
  die : Bool
  kernelnames : List (List Byte)

namespace RandomInstructionNode

open RandomInstructionGenerator (Call create runOnce)

variable {P : Type} (F : Floats P)

/-- The constructor; the number of iterations is the argument of `process`. -/
def new (initialState : RINState P) : Option (RandomInstructionNode P) :=
  (create F initialState.state).map fun generator => ⟨generator, initialState.nodeID, false, initialState.kernelnames⟩

/-- The states of the nodes that `DoCreateNode` creates for the calls of an operation. -/
def created (nd : RandomInstructionNode P) (iterations : UInt32) (calls : List (Call P)) : List (RINState P) :=
  calls.filterMap fun
    | .doCreateNode newNodeID creatorNodeID state =>
      if creatorNodeID = nd.myID then some ⟨newNodeID, iterations, nd.kernelnames, state⟩ else none
    | _ => none

def deletesID (myID : UInt32) : Call P → Bool
  | .doDeleteNode nodeID => nodeID = myID
  | _ => false

def createsID (myID : UInt32) : Call P → Bool
  | .doCreateNode newNodeID _ _ => newNodeID = myID
  | _ => false

/-- The operations of `Process`, each with its calls and the nodes that it creates.  The loop ends when the node was deleted;
it breaks off when the assertion that no node is undead fails. -/
def process : RandomInstructionNode P → ℕ → List (List (Call P) × List (RINState P))
  | _, 0 => []
  | nd, iterations + 1 =>
    if nd.die then []
    else
      ((runOnce F nd.generator).1, nd.created (UInt32.ofNat iterations) (runOnce F nd.generator).1) ::
        match (runOnce F nd.generator).2 with
        | none => []
        | some generator =>
          if (runOnce F nd.generator).1.any (createsID nd.myID) then []
          else process { nd with generator := generator, die := (runOnce F nd.generator).1.any (deletesID nd.myID) }
            iterations

/-- `Process` of the node that is made from the state. -/
def run (initialState : RINState P) : Option (List (List (Call P) × List (RINState P))) :=
  (new F initialState).map fun nd => nd.process F initialState.iterations.toNat

end RandomInstructionNode

end ProcessNetwork
