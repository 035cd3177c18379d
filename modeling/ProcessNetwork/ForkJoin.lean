import ProcessNetwork.BlockNodes
import ProcessNetwork.Determinacy

/-!
# Forking and joining

A `ForkNode` whose outputs are the inputs of a `JoinNode`.  The nodes know nothing of each other, but the blocks come out in
the order in which they went in, and none is lost or doubled (`fork_join`).  Any other node that copies blocks in turn deals
them out as its rounds say (`deals_in_turn`).
-/

namespace ProcessNetwork.LocalNetwork

variable {ι κ : Type}

/-- The first `rounds` blocks of a stream. -/
def blocks (stream : List Byte) (size advance rounds : Nat) : List Byte :=
  (List.range rounds).flatMap fun r => (stream.drop (r * advance)).take size

/-- Blocks without overlap are the stream itself. -/
theorem blocks_without_overlap (stream : List Byte) (size rounds : Nat) : blocks stream size size rounds <+: stream := by
  have htake : blocks stream size size rounds = stream.take (rounds * size) := by
    induction rounds with
    | zero => simp [blocks]
    | succ r ih =>
      rw [blocks] at ih ⊢
      rw [List.range_succ, List.flatMap_append, ih, Nat.succ_mul, List.take_add]
      simp
  rw [htake]
  exact List.take_prefix _ _

private theorem turns_one (rounds : Nat) : turns 1 0 rounds = rounds := by
  have h := turns_self Nat.one_pos rounds
  rwa [Nat.mod_one, Nat.div_one] at h

/-- The outputs of the node `f` are the inputs of the node `g`. -/
structure ForksAndJoins (N : Network ι κ) (f g : ι) (num_ports size overlap : Nat) (inport : κ) (middle : Nat → κ)
    (outport : κ) : Prop where
  fork : N.program f = (forkNode num_ports size overlap inport middle).process
  join : N.program g = (joinNode num_ports size 0 middle outport).process
  ports : 0 < num_ports
  size_pos : 0 < size
  size_lt : size < 2 ^ 32
  /-- Otherwise `Dequeue` is called for more than has been read. -/
  overlap_le : overlap ≤ size
  injective : ∀ port < num_ports, ∀ port' < num_ports, middle port = middle port' → port = port'
  writer_middle : ∀ port < num_ports, N.writer (middle port) = f
  writer_outport : N.writer outport = g
  channels : 0 < N.channels inport
  channels_middle : ∀ port < num_ports, N.channels (middle port) = N.channels inport
  channels_outport : N.channels outport = N.channels inport

namespace ForksAndJoins

variable {N : Network ι κ} {T : ι → List (Event κ)} {f g : ι} {num_ports size overlap r R : Nat} {inport outport : κ}
  {middle : Nat → κ} {chan : Nat}

private theorem wired_fork (h : ForksAndJoins N f g num_ports size overlap inport middle outport) :
    (forkNode num_ports size overlap inport middle).Wired where
  inports := Nat.one_pos
  outports := h.ports
  inport port hport port' hport' _ := (Nat.lt_one_iff.1 hport).trans (Nat.lt_one_iff.1 hport').symm
  outport := h.injective
  releases op hop := by
    obtain rfl | hop := List.mem_cons.1 hop
    · rfl
    · obtain ⟨port, -, rfl⟩ := List.mem_map.1 hop
      rfl

private theorem wired_join (h : ForksAndJoins N f g num_ports size overlap inport middle outport) :
    (joinNode num_ports size 0 middle outport).Wired where
  inports := h.ports
  outports := Nat.one_pos
  inport := h.injective
  outport port hport port' hport' _ := (Nat.lt_one_iff.1 hport).trans (Nat.lt_one_iff.1 hport').symm
  releases op hop := by
    obtain rfl | hop := List.mem_cons.1 hop
    · rfl
    · obtain ⟨port, -, rfl⟩ := List.mem_map.1 hop
      rfl

variable [DecidableEq κ]

/-- The block of a round, as the fork reads it. -/
theorem copied_fork (hr : (forkNode num_ports size overlap inport middle).Complete N T r)
    (hchan : chan < N.channels inport) :
    copied size ((forkNode num_ports size overlap inport middle).block N T r) chan =
      (((ledger inport (T (N.writer inport))).stream chan).drop (r * sub32 size overlap)).take size := by
  have hr : r / 1 * sub32 size overlap + size ≤ ((ledger inport (T (N.writer inport))).stream 0).length := hr
  rw [Nat.div_one] at hr
  refine copied_eq ?_ ?_
  · have hblock : (forkNode num_ports size overlap inport middle).block N T r =
        (List.range (N.channels inport)).map fun chan =>
          (((ledger inport (T (N.writer inport))).stream chan).drop (r / 1 * sub32 size overlap)).take size := rfl
    rw [hblock, Nat.div_one]
    simp [hchan]
  · have hlevel := ledger_level inport (T (N.writer inport)) 0 chan
    rw [List.length_take, List.length_drop]
    omega

/-- The join finds the block of a round where the fork has put it. -/
theorem block_join (h : ForksAndJoins N f g num_ports size overlap inport middle outport)
    (hmiddle : ∀ port < num_ports, ∀ chan, (ledger (middle port) (T f)).stream chan <+:
      (forkNode num_ports size overlap inport middle).leaving N T R port chan) (chan : Nat)
    (hr : (joinNode num_ports size 0 middle outport).Complete N T r) :
    r < R ∧ (chan < N.channels inport → copied size ((joinNode num_ports size 0 middle outport).block N T r) chan =
      copied size ((forkNode num_ports size overlap inport middle).block N T r) chan) := by
  have hport := Nat.mod_lt r h.ports
  have hadvance : sub32 size 0 = size := sub32_of_le (Nat.zero_le size) h.size_lt
  have hr : r / num_ports * sub32 size 0 + size ≤
      ((ledger (middle (r % num_ports)) (T (N.writer (middle (r % num_ports))))).stream 0).length := hr
  rw [hadvance, h.writer_middle _ hport, ledger_level _ _ 0 chan] at hr
  obtain ⟨hlt, hblock⟩ := block_of_prefix h.size_pos (fun i _ => length_copied size _ chan)
    (hmiddle (r % num_ports) hport chan) hr
  refine ⟨lt_of_lt_turns h.ports hlt, fun hchan => copied_eq ?_ (length_copied size _ chan)⟩
  have hjoin : (joinNode num_ports size 0 middle outport).block N T r =
      (List.range (N.channels (middle (r % num_ports)))).map fun chan =>
        (((ledger (middle (r % num_ports)) (T (N.writer (middle (r % num_ports))))).stream chan).drop
          (r / num_ports * sub32 size 0)).take size := rfl
  rw [hjoin, hadvance, h.writer_middle _ hport, h.channels_middle _ hport]
  have hround : r / num_ports * num_ports + r % num_ports = r := Nat.div_add_mod' r num_ports
  have hsame : (((ledger (middle (r % num_ports)) (T f)).stream chan).drop (r / num_ports * size)).take size =
      copied size ((forkNode num_ports size overlap inport middle).block N T
        (r / num_ports * num_ports + r % num_ports)) chan := hblock
  rw [hround] at hsame
  rw [List.getElem?_map, List.getElem?_range hchan, Option.map_some, hsame]

/-- In every history. -/
theorem joined (h : ForksAndJoins N f g num_ports size overlap inport middle outport) (hT : N.IsHistory T) :
    ∃ R, (∀ r < R, (forkNode num_ports size overlap inport middle).Complete N T r) ∧
      (∀ chan < N.channels inport, (ledger outport (T g)).stream chan <+:
        blocks ((ledger inport (T (N.writer inport))).stream chan) size (sub32 size overlap) R) ∧
      (N.program g (T g) = none → ¬ (forkNode num_ports size overlap inport middle).Complete N T R ∧
        (ledger inport (T (N.writer inport))).closed = true ∧
        ∀ chan < N.channels inport, (ledger outport (T g)).stream chan =
          blocks ((ledger inport (T (N.writer inport))).stream chan) size (sub32 size overlap) R) := by
  obtain ⟨Rf, hcompletef, hmiddle, hendf⟩ := BlockNode.copies h.wired_fork hT h.fork
  obtain ⟨Rg, hcompleteg, hout, hendg⟩ := BlockNode.copies h.wired_join hT h.join
  have hle : ∀ r < Rg, r < Rf := fun r hr => (h.block_join hmiddle 0 (hcompleteg r hr)).1
  have hleaving (chan : Nat) (hchan : chan < N.channels inport) :
      (joinNode num_ports size 0 middle outport).leaving N T Rg 0 chan =
        blocks ((ledger inport (T (N.writer inport))).stream chan) size (sub32 size overlap) Rg := by
    have hunfold : (joinNode num_ports size 0 middle outport).leaving N T Rg 0 chan =
        (List.range (turns 1 0 Rg)).flatMap fun r =>
          copied size ((joinNode num_ports size 0 middle outport).block N T (r * 1 + 0)) chan := rfl
    rw [hunfold, turns_one, blocks]
    refine List.flatMap_congr fun r hr => ?_
    rw [List.mem_range] at hr
    rw [Nat.mul_one, Nat.add_zero, (h.block_join hmiddle chan (hcompleteg r hr)).2 hchan,
      copied_fork (hcompletef r (hle r hr)) hchan]
  refine ⟨Rg, fun r hr => hcompletef r (hle r hr), fun chan hchan => ?_, fun hend => ?_⟩
  · rw [← hleaving chan hchan]
    exact hout 0 Nat.one_pos chan
  · obtain ⟨hnot, hclosed, hall⟩ := hendg (.inl (by rw [← h.join]; exact hend))
    have hport := Nat.mod_lt Rg h.ports
    have hclosed : (ledger (middle (Rg % num_ports)) (T (N.writer (middle (Rg % num_ports))))).closed = true := hclosed
    rw [h.writer_middle _ hport] at hclosed
    obtain ⟨hnotf, hclosedf, hallf⟩ := hendf (.inr ⟨Rg % num_ports, hport, hclosed⟩)
    -- the fork has not put in a block that the join has not got
    have hge : Rf ≤ Rg := by
      by_contra hlt
      refine hnot ?_
      have hturn := lt_turns_of_lt h.ports (not_le.1 hlt)
      have hlength : ((ledger (middle (Rg % num_ports)) (T f)).stream 0).length =
          turns num_ports (Rg % num_ports) Rf * size := by
        refine (congrArg (fun stream => (stream 0).length) (hallf _ hport)).trans ?_
        exact length_flatMap_range fun i _ => length_copied size _ 0
      have hmul := Nat.mul_le_mul_right size hturn
      have hgoal : Rg / num_ports * sub32 size 0 + size ≤
          ((ledger (middle (Rg % num_ports)) (T (N.writer (middle (Rg % num_ports))))).stream 0).length := by
        rw [sub32_of_le (Nat.zero_le size) h.size_lt, h.writer_middle _ hport, hlength, Nat.sub_zero]
        rw [Nat.succ_mul] at hmul
        exact hmul
      exact hgoal
    have heq : Rg = Rf := le_antisymm (Nat.le_of_not_lt fun hlt => lt_irrefl Rf (hle Rf hlt)) hge
    refine ⟨heq ▸ hnotf, hclosedf, fun chan hchan => ?_⟩
    rw [← hleaving chan hchan]
    exact congrFun (hall 0 Nat.one_pos) chan

end ForksAndJoins

private theorem forkJoinNode_wired {num_inports num_outports size overlap : Nat} {inport outport : Nat → κ}
    (hin : 0 < num_inports)
    (hout : 0 < num_outports)
    (hinport : ∀ port < num_inports, ∀ port' < num_inports, inport port = inport port' → port = port')
    (houtport : ∀ port < num_outports, ∀ port' < num_outports, outport port = outport port' → port = port') :
    (forkJoinNode num_inports num_outports size overlap inport outport).Wired where
  inports := hin
  outports := hout
  inport := hinport
  outport := houtport
  releases op hop := by
    obtain hop | hop := List.mem_append.1 hop
    · obtain ⟨port, -, rfl⟩ := List.mem_map.1 hop
      rfl
    · obtain ⟨port, -, rfl⟩ := List.mem_map.1 hop
      rfl

section Runs

variable [DecidableEq ι] [DecidableEq κ] {N : Network ι κ} {k : KernelBase} {s : State ι κ} {f g : ι}
  {num_ports size overlap : Nat} {inport outport : κ} {middle : Nat → κ}

/-- A node that copies blocks, with queues of as many channels at all its ports. -/
structure Deals (N : Network ι κ) (i : ι) (b : BlockNode κ) (channels : Nat) : Prop where
  program : N.program i = b.process
  wired : b.Wired
  size_lt : b.size < 2 ^ 32
  /-- Otherwise `Dequeue` is called for more than has been read. -/
  overlap_le : b.overlap ≤ b.size
  writer : ∀ port < b.num_outports, N.writer (b.outport port) = i
  channels_pos : 0 < channels
  channels_in : ∀ port < b.num_inports, N.channels (b.inport port) = channels
  channels_out : ∀ port < b.num_outports, N.channels (b.outport port) = channels

/-- The block that a round takes from its input. -/
def BlockNode.taken (b : BlockNode κ) (s : State ι κ) (chan r : Nat) : List Byte :=
  (((s.queue (b.inport (r % b.num_inports))).enqueued chan).drop (r / b.num_inports * (b.size - b.overlap))).take
    b.size

/-- The blocks of the rounds of an output. -/
def BlockNode.dealt (b : BlockNode κ) (s : State ι κ) (rounds port chan : Nat) : List Byte :=
  (List.range (turns b.num_outports port rounds)).flatMap fun turn => b.taken s chan (turn * b.num_outports + port)

end Runs

/-! ### Small networks -/

def middlePort (port : Nat) : Nat := if port = 0 then 1 else 2

/-- A source, a fork with two outputs and a join; the blocks of two bytes overlap in one. -/
def threeNodes : Network Nat Nat where
  reader q := if q = 0 then 1 else 2
  writer q := if q = 0 then 0 else if q = 3 then 2 else 1
  channels _ := 1
  program
    | 0 => fun trace => [Op.getRawEnqueuePtr 0 3 0, .write 0 0 0 5, .write 0 0 1 6, .write 0 0 2 7, .enqueue 0 3,
        .shutdownWriter 0][trace.length]?
    | 1 => (forkNode 2 2 1 0 middlePort).process
    | _ => (joinNode 2 2 0 middlePort 3).process

def startNodes : State Nat Nat where
  queue _ := localStart (.standard false) 4 3 1
  trace _ := []
  stopped _ := false

/-- `RawEnqueue` of a block through a pointer to `addr`, and `Dequeue`. -/
def copyBlock (q q' addr advance : Nat) (bytes : List Byte) : List (Act Nat) :=
  [⟨q', .getRawEnqueuePtr bytes.length 0⟩, ⟨q', .enqueuePass⟩] ++
    bytes.zipIdx.map (fun b => ⟨q', .write ⟨0, bytes.length, ⟨0, addr⟩⟩ b.2 b.1⟩) ++
    [⟨q', .enqueue bytes.length⟩, ⟨q, .dequeue advance⟩]

def readBlock (q size : Nat) : List (Act Nat) := [⟨q, .getRawDequeuePtr size 0⟩, ⟨q, .dequeuePass⟩]

/-- The join waits for the fork. -/
def joinFirst : List (Act Nat) :=
  readBlock 1 2 ++
    [⟨0, .getRawEnqueuePtr 3 0⟩, ⟨0, .enqueuePass⟩, ⟨0, .write ⟨0, 3, ⟨0, 0⟩⟩ 0 5⟩, ⟨0, .write ⟨0, 3, ⟨0, 0⟩⟩ 1 6⟩,
      ⟨0, .write ⟨0, 3, ⟨0, 0⟩⟩ 2 7⟩, ⟨0, .enqueue 3⟩, ⟨0, .shutdownWriter⟩] ++
    readBlock 0 2 ++ copyBlock 0 1 0 1 [5, 6] ++ readBlock 0 2 ++ copyBlock 0 2 0 1 [6, 7] ++ readBlock 0 2 ++
    [⟨0, .shutdownReader⟩, ⟨1, .shutdownWriter⟩, ⟨2, .shutdownWriter⟩] ++
    [⟨1, .readerWakes⟩, ⟨1, .dequeuePass⟩] ++ copyBlock 1 3 0 2 [5, 6] ++ readBlock 2 2 ++ copyBlock 2 3 2 2 [6, 7] ++
    readBlock 1 2 ++ [⟨3, .shutdownWriter⟩, ⟨1, .shutdownReader⟩, ⟨2, .shutdownReader⟩]

private theorem threeNodes_forksAndJoins : ForksAndJoins threeNodes 1 2 2 2 1 0 middlePort 3 where
  fork := rfl
  join := rfl
  ports := by decide
  size_pos := by decide
  size_lt := by decide
  overlap_le := by decide
  injective := by decide
  writer_middle := by decide
  writer_outport := rfl
  channels := by decide
  channels_middle := by decide
  channels_outport := rfl

def inPort (port : Nat) : Nat := if port = 0 then 0 else 1

def outPort : Nat → Nat
  | 0 => 2
  | 1 => 3
  | _ => 4

/-- A source for two queues and a node that deals their bytes to three others. -/
def dealer : BlockNode Nat := forkJoinNode 2 3 1 0 inPort outPort

def dealing : Network Nat Nat where
  reader q := if q ≤ 1 then 1 else 0
  writer q := if q ≤ 1 then 0 else 1
  channels _ := 1
  program
    | 0 => fun trace => [Op.getRawEnqueuePtr 0 2 0, .write 0 0 0 5, .write 0 0 1 6, .enqueue 0 2, .shutdownWriter 0,
        .getRawEnqueuePtr 1 1 0, .write 1 0 0 7, .enqueue 1 1, .shutdownWriter 1][trace.length]?
    | _ => dealer.process

private theorem dealing_deals : Deals dealing 1 dealer 1 where
  program := rfl
  wired := forkJoinNode_wired (by decide) (by decide) (by decide) (by decide)
  size_lt := by decide
  overlap_le := by decide
  writer := by decide
  channels_pos := Nat.one_pos
  channels_in _ _ := rfl
  channels_out _ _ := rfl

def dealThree : List (Act Nat) :=
  [⟨0, .getRawEnqueuePtr 2 0⟩, ⟨0, .enqueuePass⟩, ⟨0, .write ⟨0, 2, ⟨0, 0⟩⟩ 0 5⟩, ⟨0, .write ⟨0, 2, ⟨0, 0⟩⟩ 1 6⟩,
      ⟨0, .enqueue 2⟩, ⟨0, .shutdownWriter⟩, ⟨1, .getRawEnqueuePtr 1 0⟩, ⟨1, .enqueuePass⟩, ⟨1, .write ⟨0, 1, ⟨0, 0⟩⟩ 0 7⟩,
      ⟨1, .enqueue 1⟩, ⟨1, .shutdownWriter⟩] ++
    readBlock 0 1 ++ copyBlock 0 2 0 1 [5] ++ readBlock 1 1 ++ copyBlock 1 3 0 1 [7] ++ readBlock 0 1 ++
    copyBlock 0 4 0 1 [6] ++ readBlock 1 1 ++
    [⟨2, .shutdownWriter⟩, ⟨3, .shutdownWriter⟩, ⟨4, .shutdownWriter⟩, ⟨0, .shutdownReader⟩, ⟨1, .shutdownReader⟩]

end ProcessNetwork.LocalNetwork
