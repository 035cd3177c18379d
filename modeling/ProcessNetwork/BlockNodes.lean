import ProcessNetwork.NetworkHistories
import ProcessNetwork.Lib.Turns
import ProcessNetwork.Lib.Unsigned

/-!
# Nodes that copy blocks in turn

`ForkNode`, `JoinNode` and `ForkJoinNode` take a block from the next of their inputs, put it into the next of their outputs
and advance in the input by the size of the block less the overlap, until a read returns null; then they release their
queues.  In every history, what is in the outputs is what these rounds say (`BlockNode.copies`).
-/

namespace ProcessNetwork.LocalNetwork

variable {ι κ : Type}

namespace Op

def reads : Op κ → Bool
  | getRawDequeuePtr .. => true
  | _ => false

def consumes : Op κ → Bool
  | dequeue .. => true
  | _ => false

/-- `Release` of an end of a queue. -/
def releases : Op κ → Bool
  | shutdownReader _ | shutdownWriter _ => true
  | _ => false

end Op

/-- `RawEnqueue`, with the bytes of each channel. -/
def rawEnqueue (q : κ) (count : Nat) (data : List (List Byte)) : List (Op κ) :=
  (data.zipIdx.flatMap fun d => .getRawEnqueuePtr q count d.2 :: d.1.zipIdx.map fun b => .write q d.2 b.2 b.1) ++
    [.enqueue q count]

/-- A node that copies blocks of `size` bytes from its inputs in turn to its outputs in turn. -/
structure BlockNode (κ : Type) where
  num_inports : Nat
  num_outports : Nat
  inport : Nat → κ
  outport : Nat → κ
  size : Nat
  overlap : Nat
  /-- What the node does after a read has returned null. -/
  releases : List (Op κ)

def forkNode (num_outports size overlap : Nat) (inport : κ) (outport : Nat → κ) : BlockNode κ where
  num_inports := 1
  num_outports := num_outports
  inport _ := inport
  outport := outport
  size := size
  overlap := overlap
  releases := .shutdownReader inport :: (List.range num_outports).map fun port => .shutdownWriter (outport port)

def joinNode (num_inports size overlap : Nat) (inport : Nat → κ) (outport : κ) : BlockNode κ where
  num_inports := num_inports
  num_outports := 1
  inport := inport
  outport _ := outport
  size := size
  overlap := overlap
  releases := .shutdownWriter outport :: (List.range num_inports).map fun port => .shutdownReader (inport port)

def forkJoinNode (num_inports num_outports size overlap : Nat) (inport outport : Nat → κ) : BlockNode κ where
  num_inports := num_inports
  num_outports := num_outports
  inport := inport
  outport := outport
  size := size
  overlap := overlap
  releases := (List.range num_outports).map (fun port => .shutdownWriter (outport port)) ++
    (List.range num_inports).map fun port => .shutdownReader (inport port)

/-- Where a node is: the ports at which its iterators are, and what it does before it looks at a result again. -/
structure Walk (κ : Type) where
  current_in : Nat
  current_out : Nat
  todo : List (Op κ)

/-- `++current`, and back to the first port from the last one. -/
def nextPort (ports current : Nat) : Nat := if current + 1 = ports then 0 else current + 1

namespace BlockNode

def advance (b : BlockNode κ) : Nat := sub32 b.size b.overlap

def fetch (b : BlockNode κ) (port : Nat) : Op κ := .getRawDequeuePtr (b.inport port) b.size 0

/-- Without ports on one side, no queue is touched. -/
def start (b : BlockNode κ) : Walk κ where
  current_in := 0
  current_out := 0
  todo := if 0 < b.num_inports ∧ 0 < b.num_outports then [b.fetch 0] else []

def step (b : BlockNode κ) (w : Walk κ) (e : Event κ) : Walk κ :=
  match e.op, e.result with
  | .getRawDequeuePtr .., some data =>
    let current_in := nextPort b.num_inports w.current_in
    { current_in := current_in
      current_out := nextPort b.num_outports w.current_out
      todo := rawEnqueue (b.outport w.current_out) b.size data ++
        [.dequeue (b.inport w.current_in) b.advance, b.fetch current_in] }
  | .getRawDequeuePtr .., none => { w with todo := b.releases }
  | _, _ => { w with todo := w.todo.tail }

def walk (b : BlockNode κ) (trace : List (Event κ)) : Walk κ := trace.foldl b.step b.start

/-- `Process`, as a program. -/
def process (b : BlockNode κ) (trace : List (Event κ)) : Option (Op κ) := (b.walk trace).todo.head?

private theorem step_of_not_reads (b : BlockNode κ) {op : Op κ} (h : op.reads = false) (w : Walk κ) :
    b.step w { op := op } = { w with todo := w.todo.tail } := by
  cases op with
  | getRawDequeuePtr q thresh chan => cases h
  | _ => rfl

end BlockNode

private theorem nextPort_mod {ports : Nat} (hports : 0 < ports) (r : Nat) :
    nextPort ports (r % ports) = (r + 1) % ports := by
  unfold nextPort
  have hlt := Nat.mod_lt r hports
  rw [Nat.add_mod]
  obtain rfl | hone : ports = 1 ∨ 1 < ports := by omega
  · simp [Nat.mod_one]
  · rw [Nat.mod_eq_of_lt hone]
    split_ifs with heq
    · rw [heq, Nat.mod_self]
    · exact (Nat.mod_eq_of_lt (by omega : r % ports + 1 < ports)).symm

/-! ### What the operations of a round put into the books -/

section Books

variable [DecidableEq κ] {q q' : κ} {d : Ledger}

/-- The books after operations that return nothing. -/
def Ledger.run (q : κ) (d : Ledger) (ops : List (Op κ)) : Ledger := ops.foldl (fun d op => d.step q { op := op }) d

def consumedRun (q : κ) (n : Nat) (ops : List (Op κ)) : Nat := ops.foldl (fun n op => consumedStep q n { op := op }) n

private theorem Ledger.run_append (q : κ) (d : Ledger) (l l' : List (Op κ)) : d.run q (l ++ l') = (d.run q l).run q l' :=
  List.foldl_append

private theorem consumedRun_append (q : κ) (n : Nat) (l l' : List (Op κ)) :
    consumedRun q n (l ++ l') = consumedRun q (consumedRun q n l) l' :=
  List.foldl_append

private theorem Ledger.Extends.run (q : κ) (d : Ledger) (ops : List (Op κ)) : d.Extends (d.run q ops) := by
  induction ops generalizing d with
  | nil => exact .refl d
  | cons op ops ih => exact (Extends.step q d _).trans (ih _)

private theorem run_writes (q : κ) (d : Ledger) (chan : Nat) (bytes : List Byte) :
    d.run q (bytes.zipIdx.map fun b => .write q chan b.2 b.1) =
      { d with written := Function.update d.written chan fun off => bytes[off]?.or (d.written chan off) } := by
  induction bytes using List.reverseRecOn with
  | nil => simp [Ledger.run]
  | append_singleton bytes b ih =>
    rw [List.zipIdx_append, List.map_append, Ledger.run_append, ih]
    simp only [Ledger.run, Ledger.step, List.zipIdx_cons, List.zipIdx_nil, List.map_cons, List.map_nil, List.foldl_cons,
      List.foldl_nil, if_pos, Function.update_self, Function.update_idem, Nat.zero_add]
    congr 2
    funext off
    by_cases heq : off = bytes.length
    · subst heq
      simp
    · rw [Function.update_of_ne heq]
      grind

/-- All channels are written. -/
theorem run_copies (q : κ) (d : Ledger) (count : Nat) (data : List (List Byte)) :
    d.run q (data.zipIdx.flatMap fun d => .getRawEnqueuePtr q count d.2 :: d.1.zipIdx.map fun b => .write q d.2 b.2 b.1) =
      { d with written := fun chan off => (data[chan]?.bind fun bytes => bytes[off]?).or (d.written chan off) } := by
  induction data using List.reverseRecOn with
  | nil => simp [Ledger.run]
  | append_singleton data bytes ih =>
    rw [List.zipIdx_append, List.flatMap_append, Ledger.run_append, ih]
    simp only [List.zipIdx_cons, List.zipIdx_nil, List.flatMap_cons, List.flatMap_nil, List.append_nil, Nat.zero_add]
    have hstep (d : Ledger) (ops : List (Op κ)) :
        d.run q (.getRawEnqueuePtr q count data.length :: ops) = d.run q ops := rfl
    rw [hstep, run_writes]
    congr 1
    funext chan off
    by_cases heq : chan = data.length
    · subst heq
      simp
    · rw [Function.update_of_ne heq]
      have hsame : (data ++ [bytes])[chan]? = data[chan]? := by grind
      rw [hsame]

/-- What a block puts into a channel. -/
def copied (size : Nat) (data : List (List Byte)) (chan : Nat) : List Byte :=
  (List.range size).map fun off => (data[chan]?.bind fun bytes => bytes[off]?).getD 0

theorem length_copied (size : Nat) (data : List (List Byte)) (chan : Nat) : (copied size data chan).length = size := by
  simp [copied]

theorem copied_eq {size chan : Nat} {data : List (List Byte)} {bytes : List Byte} (hdata : data[chan]? = some bytes)
    (hsize : bytes.length = size) : copied size data chan = bytes := by
  refine List.ext_getElem (by rw [length_copied, hsize]) fun off h h' => ?_
  simp [copied, hdata, h']

private theorem run_rawEnqueue (q : κ) (size : Nat) (data : List (List Byte)) (hwritten : d.written = fun _ _ => none)
    (hopen : d.closed = false) : d.run q (rawEnqueue q size data) =
      { d with stream := fun chan => d.stream chan ++ copied size data chan } := by
  unfold rawEnqueue
  rw [Ledger.run_append, run_copies]
  simp only [Ledger.run, Ledger.step, List.foldl_cons, List.foldl_nil, if_pos, hwritten, hopen, Option.or_none]
  rfl

omit [DecidableEq κ] in
private theorem mem_rawEnqueue {size : Nat} {data : List (List Byte)} {op : Op κ} (h : op ∈ rawEnqueue q size data) :
    op.queue = q ∧ op.consumes = false ∧ op.reads = false := by
  unfold rawEnqueue at h
  simp only [List.mem_append, List.mem_flatMap, List.mem_cons, List.mem_map, List.not_mem_nil, or_false] at h
  obtain ⟨d, -, rfl | ⟨b, -, rfl⟩⟩ | rfl := h
  · exact ⟨rfl, rfl, rfl⟩
  · exact ⟨rfl, rfl, rfl⟩
  · exact ⟨rfl, rfl, rfl⟩

private theorem Ledger.step_of_ne {e : Event κ} (h : e.op.queue ≠ q) : d.step q e = d := by
  unfold Ledger.step
  split
  · rename_i hop
    exact if_neg fun heq => h (by rw [hop]; exact heq)
  · rename_i hop
    exact if_neg fun heq => h (by rw [hop]; exact heq)
  · rename_i hop
    exact if_neg fun heq => h (by rw [hop]; exact heq)
  · rfl

private theorem Ledger.run_of_ne {ops : List (Op κ)} (h : ∀ op ∈ ops, op.queue ≠ q) : d.run q ops = d := by
  induction ops with
  | nil => rfl
  | cons op ops ih =>
    refine Eq.trans ?_ (ih fun op' hop' => h op' (List.mem_cons_of_mem op hop'))
    exact congrArg (fun d => Ledger.run q d ops) (step_of_ne (e := { op := op }) (h op List.mem_cons_self))

private theorem consumedRun_of_not {n : Nat} {ops : List (Op κ)} (h : ∀ op ∈ ops, op.consumes = false) :
    consumedRun q n ops = n := by
  induction ops with
  | nil => rfl
  | cons op ops ih =>
    refine Eq.trans ?_ (ih fun op' hop' => h op' (List.mem_cons_of_mem op hop'))
    have hop := h op List.mem_cons_self
    cases op with
    | dequeue q' count => cases hop
    | _ => rfl

end Books

/-! ### The rounds of a node -/

namespace BlockNode

variable [DecidableEq κ] {N : Network ι κ} {T : ι → List (Event κ)} {b : BlockNode κ} {p : List (Event κ)} {w : Walk κ}
  {e : Event κ} {R : Nat}

/-- What comes into a port. -/
def arriving (b : BlockNode κ) (N : Network ι κ) (T : ι → List (Event κ)) (port chan : Nat) : List Byte :=
  (ledger (b.inport port) (T (N.writer (b.inport port)))).stream chan

/-- The block of a round. -/
def block (b : BlockNode κ) (N : Network ι κ) (T : ι → List (Event κ)) (r : Nat) : List (List Byte) :=
  (List.range (N.channels (b.inport (r % b.num_inports)))).map fun chan =>
    ((b.arriving N T (r % b.num_inports) chan).drop (r / b.num_inports * b.advance)).take b.size

/-- The bytes of the block are there. -/
def Complete (b : BlockNode κ) (N : Network ι κ) (T : ι → List (Event κ)) (r : Nat) : Prop :=
  r / b.num_inports * b.advance + b.size ≤ (b.arriving N T (r % b.num_inports) 0).length

/-- What the rounds put into a port. -/
def leaving (b : BlockNode κ) (N : Network ι κ) (T : ι → List (Event κ)) (rounds port chan : Nat) : List Byte :=
  (List.range (turns b.num_outports port rounds)).flatMap fun i =>
    copied b.size (b.block N T (i * b.num_outports + port)) chan

private theorem leaving_succ (b : BlockNode κ) (N : Network ι κ) (T : ι → List (Event κ)) (hports : 0 < b.num_outports)
    (R port chan : Nat) : b.leaving N T (R + 1) port chan =
      b.leaving N T R port chan ++ if R % b.num_outports = port then copied b.size (b.block N T R) chan else [] := by
  unfold leaving
  rw [turns_succ]
  split_ifs with heq
  · subst heq
    rw [turns_self hports, List.range_succ, List.flatMap_append, List.flatMap_cons, List.flatMap_nil, List.append_nil,
      Nat.div_add_mod']
  · rw [Nat.add_zero, List.append_nil]

/-- Each port has a queue of its own. -/
structure Wired (b : BlockNode κ) : Prop where
  inports : 0 < b.num_inports
  outports : 0 < b.num_outports
  inport : ∀ port < b.num_inports, ∀ port' < b.num_inports, b.inport port = b.inport port' → port = port'
  outport : ∀ port < b.num_outports, ∀ port' < b.num_outports, b.outport port = b.outport port' → port = port'
  releases : ∀ op ∈ b.releases, op.releases = true

/-- What the rounds have consumed. -/
def Consumed (b : BlockNode κ) (p : List (Event κ)) (ops : List (Op κ)) (R : Nat) : Prop :=
  ∀ port < b.num_inports, consumedRun (b.inport port) (consumed (b.inport port) p) ops =
    turns b.num_inports port R * b.advance

inductive Phase (b : BlockNode κ) (N : Network ι κ) (T : ι → List (Event κ)) (p : List (Event κ)) (w : Walk κ) (R : Nat) :
    Prop
  | going (ops : List (Op κ)) : (∀ r < R, b.Complete N T r) →
      w = ⟨R % b.num_inports, R % b.num_outports, ops ++ [b.fetch (R % b.num_inports)]⟩ →
      (∀ op ∈ ops, op.reads = false) → b.Consumed p ops R →
      (∀ port < b.num_outports, (ledger (b.outport port) p).run (b.outport port) ops =
        { stream := b.leaving N T R port }) → Phase b N T p w R
  | ending : (∀ r < R, b.Complete N T r) → (∀ op ∈ w.todo, op.releases = true) → ¬ b.Complete N T R →
      (ledger (b.inport (R % b.num_inports)) (T (N.writer (b.inport (R % b.num_inports))))).closed = true →
      (∀ port < b.num_outports, (ledger (b.outport port) p).stream = b.leaving N T R port) → Phase b N T p w R

private theorem phase_start (hb : b.Wired) : Phase b N T [] b.start 0 := by
  refine .going [] (fun r hr => by cases hr) ?_ (fun op hop => by cases hop) (fun port hport => ?_) fun port hport => ?_
  · rw [start, if_pos ⟨hb.inports, hb.outports⟩, Nat.zero_mod, Nat.zero_mod]
    rfl
  · rw [turns_zero, Nat.zero_mul]
    rfl
  · have hnothing : b.leaving N T 0 port = fun _ => [] := by
      funext chan
      rw [leaving, turns_zero]
      rfl
    rw [hnothing]
    rfl

private theorem event_of_not_reads (he : N.Justified T p e) (h : e.op.reads = false) : e = { op := e.op } := by
  obtain ⟨op, result⟩ := e
  cases op with
  | getRawDequeuePtr q thresh chan => cases h
  | _ =>
    cases he
    rfl

/-- A block has been read: it is the block of the round, and the node goes on to put it into the next output. -/
theorem Phase.read_some (hb : b.Wired) {data : List (List Byte)} (hcomplete : ∀ r < R + 1, b.Complete N T r)
    (hcons : b.Consumed p [] R)
    (hleaving : ∀ port < b.num_outports, ledger (b.outport port) p = { stream := b.leaving N T R port })
    (hdata : data = b.block N T R) : Phase b N T (p ++ [{ op := b.fetch (R % b.num_inports), result := some data }])
      (b.step ⟨R % b.num_inports, R % b.num_outports, [b.fetch (R % b.num_inports)]⟩
        { op := b.fetch (R % b.num_inports), result := some data }) (R + 1) := by
  have hin := Nat.mod_lt R hb.inports
  have hout := Nat.mod_lt R hb.outports
  refine .going (rawEnqueue (b.outport (R % b.num_outports)) b.size data ++
    [.dequeue (b.inport (R % b.num_inports)) b.advance]) hcomplete ?_ (fun op hop => ?_) (fun port hport => ?_)
    fun port hport => ?_
  · rw [← nextPort_mod hb.inports, ← nextPort_mod hb.outports, List.append_assoc]
    rfl
  · obtain hop | hop := List.mem_append.1 hop
    · exact (mem_rawEnqueue hop).2.2
    · rw [List.mem_singleton] at hop
      rw [hop]
      rfl
  -- the block counts as consumed only by the `Dequeue`, for the input of this round
  · have hbefore := hcons port hport
    have hraw : consumedRun (b.inport port) (consumed (b.inport port) (p ++
        [{ op := b.fetch (R % b.num_inports), result := some data }]))
        (rawEnqueue (b.outport (R % b.num_outports)) b.size data) = turns b.num_inports port R * b.advance := by
      rw [consumedRun_of_not fun op hop => (mem_rawEnqueue hop).2.1, consumed_concat]
      exact hbefore
    rw [consumedRun_append, hraw, turns_succ]
    simp only [consumedRun, List.foldl_cons, List.foldl_nil, consumedStep]
    by_cases heq : R % b.num_inports = port
    · subst heq
      rw [if_pos rfl, if_pos rfl, Nat.add_mul, Nat.one_mul]
    · rw [if_neg fun h => heq (hb.inport _ hin _ hport h), if_neg heq, Nat.add_zero]
  -- the block goes to the output of this round, the others stay
  · have hsame : ledger (b.outport port) (p ++ [{ op := b.fetch (R % b.num_inports), result := some data }]) =
        { stream := b.leaving N T R port } := by
      rw [ledger_concat]
      exact hleaving port hport
    have hnext : b.leaving N T (R + 1) port = fun chan => b.leaving N T R port chan ++
        if R % b.num_outports = port then copied b.size (b.block N T R) chan else [] :=
      funext fun chan => leaving_succ b N T hb.outports R port chan
    rw [hsame, Ledger.run_append, hnext]
    by_cases heq : R % b.num_outports = port
    · subst heq
      rw [run_rawEnqueue _ _ _ rfl rfl, hdata]
      simp only [if_pos]
      rfl
    · have hother : Ledger.run (b.outport port) { stream := b.leaving N T R port }
          (rawEnqueue (b.outport (R % b.num_outports)) b.size data) = { stream := b.leaving N T R port } := by
        refine Ledger.run_of_ne fun op hop => ?_
        rw [(mem_rawEnqueue hop).1]
        exact fun h => heq (hb.outport _ hout _ hport h)
      rw [hother]
      simp only [if_neg heq, List.append_nil]
      rfl

private theorem Phase.step (hb : b.Wired) (h : Phase b N T p w R) (hop : w.todo.head? = some e.op) (he : N.Justified T p e) :
    ∃ R', Phase b N T (p ++ [e]) (b.step w e) R' := by
  cases h with
  | going ops hcomplete hw hops hcons hleaving =>
    subst hw
    cases ops with
    | cons op ops =>
      -- another operation of the round
      obtain rfl : op = e.op := Option.some.inj hop
      have hevent := event_of_not_reads he (hops e.op List.mem_cons_self)
      refine ⟨R, .going ops hcomplete ?_ (fun op' hop' => hops op' (List.mem_cons_of_mem _ hop')) (fun port hport => ?_)
        fun port hport => ?_⟩
      · rw [hevent, step_of_not_reads b (hops e.op List.mem_cons_self)]
        rfl
      · rw [← hcons port hport, consumed_concat, hevent]
        rfl
      · rw [← hleaving port hport, ledger_concat, hevent]
        rfl
    | nil =>
      -- the read of the round
      have hfetch : b.fetch (R % b.num_inports) = e.op := Option.some.inj hop
      obtain ⟨op, result⟩ := e
      dsimp only at hfetch
      subst hfetch
      obtain ⟨hresult, hnull⟩ := he
      dsimp only at hresult hnull
      have hat : consumed (b.inport (R % b.num_inports)) p = R / b.num_inports * b.advance := by
        rw [← turns_self hb.inports]
        exact hcons _ (Nat.mod_lt R hb.inports)
      rw [hat, Ledger.read] at hresult
      split_ifs at hresult with hthere
      · subst hresult
        refine ⟨R + 1, .read_some hb (fun r hr => ?_) hcons hleaving ?_⟩
        · obtain hlt | rfl : r < R ∨ r = R := by omega
          · exact hcomplete r hlt
          · exact hthere
        · rw [Nat.sub_zero, block]
          refine List.map_congr_left fun c _ => ?_
          rw [Nat.zero_add]
          rfl
      · subst hresult
        refine ⟨R, .ending hcomplete hb.releases hthere (hnull rfl) fun port hport => ?_⟩
        rw [ledger_concat]
        exact congrArg Ledger.stream (hleaving port hport)
  | ending hcomplete htodo hnot hclosed hleaving =>
    obtain ⟨c, c', todo⟩ := w
    cases todo with
    | nil => cases hop
    | cons op todo =>
      obtain rfl : op = e.op := Option.some.inj hop
      have hreleases := htodo e.op List.mem_cons_self
      have hreads : e.op.reads = false := by
        cases hop : e.op with
        | getRawDequeuePtr q thresh chan =>
          rw [hop] at hreleases
          cases hreleases
        | _ => rfl
      have hevent := event_of_not_reads he hreads
      have hstream (q : κ) (d : Ledger) : (d.step q e).stream = d.stream := by
        unfold Ledger.step
        split
        · split_ifs
          · rfl
          · rfl
        · rename_i hop
          rw [hop] at hreleases
          cases hreleases
        · split_ifs
          · rfl
          · rfl
        · rfl
      refine ⟨R, .ending hcomplete (fun op' hop' => ?_) hnot hclosed fun port hport => ?_⟩
      · rw [hevent, step_of_not_reads b hreads] at hop'
        exact htodo op' (List.mem_cons_of_mem _ hop')
      · rw [ledger_concat, hstream]
        exact hleaving port hport

private theorem phase_of_isHistory {i : ι} (hb : b.Wired) (hT : N.IsHistory T) (hi : N.program i = b.process)
    {rest : List (Event κ)}
    (hp : T i = p ++ rest) : ∃ R, Phase b N T p (b.walk p) R := by
  induction p using List.reverseRecOn generalizing rest with
  | nil => exact ⟨0, phase_start hb⟩
  | append_singleton p e ih =>
    rw [List.append_assoc, List.singleton_append] at hp
    obtain ⟨R, h⟩ := ih hp
    obtain ⟨hop, he⟩ := hT i p e rest hp
    rw [hi] at hop
    rw [walk, List.foldl_append]
    exact h.step hb hop he

/-- The outputs have got blocks of the inputs in turn, and when the node releases its queues, all that the inputs will ever
have got. -/
theorem copies {i : ι} (hb : b.Wired) (hT : N.IsHistory T) (hi : N.program i = b.process) :
    ∃ R, (∀ r < R, b.Complete N T r) ∧
      (∀ port < b.num_outports, ∀ chan, (ledger (b.outport port) (T i)).stream chan <+: b.leaving N T R port chan) ∧
      (b.process (T i) = none ∨ (∃ port < b.num_outports, (ledger (b.outport port) (T i)).closed = true) →
        ¬ b.Complete N T R ∧
        (ledger (b.inport (R % b.num_inports)) (T (N.writer (b.inport (R % b.num_inports))))).closed = true ∧
        ∀ port < b.num_outports, (ledger (b.outport port) (T i)).stream = b.leaving N T R port) := by
  obtain ⟨R, h⟩ := phase_of_isHistory hb hT hi (List.append_nil (T i)).symm
  refine ⟨R, ?_⟩
  cases h with
  | going ops hcomplete hw hops hcons hleaving =>
    refine ⟨hcomplete, fun port hport chan => ?_, fun hend => ?_⟩
    · have hext := Ledger.Extends.run (b.outport port) (ledger (b.outport port) (T i)) ops
      rw [hleaving port hport] at hext
      exact hext.stream chan
    · obtain hnone | ⟨port, hport, hclosed⟩ := hend
      · rw [process, hw] at hnone
        cases ops with
        | nil => cases hnone
        | cons op ops => cases hnone
      · have hext := Ledger.Extends.run (b.outport port) (ledger (b.outport port) (T i)) ops
        rw [hleaving port hport] at hext
        cases (hext.closed hclosed).1
  | ending hcomplete htodo hnot hclosed hleaving =>
    refine ⟨hcomplete, fun port hport chan => ?_, fun _ => ⟨hnot, hclosed, hleaving⟩⟩
    rw [hleaving port hport]

end BlockNode

end ProcessNetwork.LocalNetwork
