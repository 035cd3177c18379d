import ProcessNetwork.Determinacy
import ProcessNetwork.LocalWaits
import ProcessNetwork.Lib.Cycle

/-!
# Where a network gets stuck

When no thread can go on, every node that has not ended waits for bytes or for room in a queue whose other end is with a
node that has not ended either, so some nodes wait in a cycle (`stuck_in_cycle`).  Nodes that all wait for bytes of each
other do not get any further in any careful run, whatever the lengths of the queues (`starved_in_every_run`), and a run that
stops without a full queue has got everywhere as far as any careful run can get (`stuck_is_final`).
-/

namespace ProcessNetwork.LocalNetwork

open LocalState (Sound Considerate)
open Relation

variable {ι κ : Type}

/-- A step of the thread of a node. -/
def OwnStep : LocalAct → Prop
  | .grow .. | .detect | .deadlock | .spuriousWakeup _ => False
  | _ => True

/-- The queue takes the operation: the channel is there, and no more is dequeued, enqueued or written than the pointers
allow. -/
def Usable (u : LocalState) : Op κ → Prop
  | .getRawDequeuePtr _ _ chan | .getRawEnqueuePtr _ _ chan => chan < u.q.queue.numChannels
  | .dequeue _ count => count ≤ if u.q.indequeue then u.q.dequeuethresh else 0
  | .write _ chan off _ => ∃ p ∈ u.writerPtrs, p.chan = chan ∧ off < p.thresh
  | .enqueue _ count => count ≤ if u.q.inenqueue then u.q.enqueuethresh else 0
  | .shutdownReader _ | .shutdownWriter _ => True

/-- The node `i` needs more bytes than the node `j` has put into a queue. -/
def WaitsForData (N : Network ι κ) (s : State ι κ) (i j : ι) : Prop :=
  ∃ q t c, N.reader q = i ∧ N.writer q = j ∧ N.program i (s.trace i) = some (.getRawDequeuePtr q t c) ∧
    c < N.channels q ∧ (s.queue q).q.shutdown = false ∧ (s.queue q).q.queue.count < t

def WaitsForFreespace (N : Network ι κ) (s : State ι κ) (i j : ι) : Prop :=
  ∃ q t c, N.writer q = i ∧ N.reader q = j ∧ N.program i (s.trace i) = some (.getRawEnqueuePtr q t c) ∧
    c < N.channels q ∧ (s.queue q).q.shutdown = false ∧ (s.queue q).q.queue.freespace < t

def Waits (N : Network ι κ) (s : State ι κ) (i j : ι) : Prop := WaitsForData N s i j ∨ WaitsForFreespace N s i j

variable [DecidableEq ι] [DecidableEq κ] {N : Network ι κ} {k k' : KernelBase} {s s' u : State ι κ} {a : Act κ} {i j : ι}

/-- No thread can take a step. -/
def Stuck (N : Network ι κ) (k : KernelBase) (s : State ι κ) : Prop :=
  ∀ a : Act κ, OwnStep a.act → N.next k s a = none

/-- No call throws, what it does is determined, and no other thread makes room for a sleeping writer. -/
def Steady (N : Network ι κ) (k : KernelBase) (s : State ι κ) (a : Act κ) : Prop :=
  Careful N k s a ∧ (s.queue a.q).MakesNoRoom a.act

instance (N : Network ι κ) (k : KernelBase) (s : State ι κ) (a : Act κ) : Decidable (Steady N k s a) :=
  inferInstanceAs (Decidable (Careful N k s a ∧ (s.queue a.q).MakesNoRoom a.act))

/-- Every queue of a network goes through a run of its own. -/
theorem queue_reachableBy (h : (N.machine k).ReachableBy (Steady N k) s) (q : κ) :
    (localQueue k).ReachableBy Considerate (s.queue q) := by
  refine h.invariant (I := fun s => ∀ q, (localQueue k).ReachableBy Considerate (s.queue q)) (fun s hs q => ?_)
    (fun s a s' ih hok hn q => ?_) q
  · obtain ⟨length, maxThreshold, hq⟩ := hs.1 q
    exact .init ⟨length, maxThreshold, N.channels q, hq⟩
  · have hn : N.next k s a = some s' := hn
    unfold Network.next at hn
    split_ifs at hn with hasks
    obtain ⟨u', hu', rfl⟩ := Option.map_eq_some_iff.1 hn
    rw [(N.settle_cases _ _).1]
    dsimp only
    by_cases heq : q = a.q
    · subst heq
      rw [Function.update_self]
      exact .step (ih a.q) ⟨notBroken_of_fine hok.1.1, hok.2⟩ hu'
    · rw [Function.update_of_ne heq]
      exact ih q

private theorem not_stopped (h : (N.machine k).ReachableBy (Careful N k) s) : s.stopped i = false := by
  refine h.invariant (I := fun s => ∀ i, s.stopped i = false) (fun s (hs : (N.machine k).init s) => hs.2.2)
    (fun s a s' ih hok hn => ?_) i
  have hn : N.next k s a = some s' := hn
  unfold Network.next at hn
  split_ifs at hn with hasks
  obtain ⟨u', hu', rfl⟩ := Option.map_eq_some_iff.1 hn
  generalize ho : N.outcome k a.q (s.queue a.q) a.act = o
  have hfine := hok.1
  rw [ho] at hfine
  cases o with
  | goesOn => exact ih
  | returns e => exact ih
  | throws i => exact hfine.elim

private theorem steady_careful (h : (N.machine k).ReachableBy (Steady N k) s) :
    (N.machine k).ReachableBy (Careful N k) s := by
  induction h with
  | init hs => exact .init hs
  | step _ hok hn ih => exact .step ih hok.1 hn

/-! ### A stuck network -/

section Stuck

/-- In a stuck state the queue does not take a step of the operation that is asked for. -/
theorem Stuck.localNext (h : Stuck N k s) (hown : OwnStep a.act) (hasks : ∀ op ∈ Network.begins a.q a.act, N.Asks s op) :
    localNext k (s.queue a.q) a.act = none := by
  have hnone := h a hown
  rw [Network.next, if_pos hasks] at hnone
  exact Option.map_eq_none_iff.1 hnone

private theorem Stuck.reader_ne (h : Stuck N k s) (q : κ) {t c : Nat} : (s.queue q).reader ≠ .loop t c := by
  intro hr
  have hnone := h.localNext (a := ⟨q, .dequeuePass⟩) trivial fun op hop => by cases hop
  simp only [ProcessNetwork.localNext, hr] at hnone
  cases hnone

private theorem Stuck.writer_ne (h : Stuck N k s) (q : κ) {t c : Nat} {grown : Bool} :
    (s.queue q).writer ≠ .loop t c grown := by
  intro hw
  have hnone := h.localNext (a := ⟨q, .enqueuePass⟩) trivial fun op hop => by cases hop
  simp only [ProcessNetwork.localNext, hw] at hnone
  cases hnone

private theorem Stuck.lockFree (h : Stuck N k s) (q : κ) : (s.queue q).lockFree = true := by
  unfold LocalState.lockFree
  split
  · rename_i hr
    exact absurd hr (h.reader_ne q)
  · rename_i hw _
    exact absurd hw (h.writer_ne q)
  · rfl

/-- A reader that waits in a stuck state sleeps, and it needs more bytes. -/
theorem Stuck.waitsForData (h : Stuck N k s) (hs : (N.machine k).ReachableBy (Steady N k) s) {q : κ} {t c : Nat}
    (hr : (s.queue q).reader = .waiting t c) : WaitsForData N s (N.reader q) (N.writer q) := by
  have hS := accounted_of_reachableBy (steady_careful hs)
  have hqueue := queue_reachableBy hs q
  have hat := (hS.sound q).reader
  rw [hr] at hat
  have hsleeps : (s.queue q).q.cond .reader = true := by
    by_contra hawake
    have hnone := h.localNext (a := ⟨q, .readerWakes⟩) trivial fun op hop => by cases hop
    simp only [ProcessNetwork.localNext, hr, h.lockFree q, eq_false_of_ne_true hawake, and_self, if_true] at hnone
    cases hnone
  have hblocked := ((LocalState.noLostWakeup_of_reachableBy hqueue).reader hsleeps).2
  rw [Queue.readBlocked, Bool.and_eq_true, decide_eq_true_eq] at hblocked
  obtain ⟨hshort, hopen⟩ := hblocked
  have hrequest : (Queue.base (s.queue q).q).readrequest = t := (LocalState.requests_of_reachableBy hqueue).reader t c hr
  rw [hrequest] at hshort
  refine ⟨q, t, c, rfl, rfl, hS.reading q t c (by rw [hr]; rfl), ?_, (Bool.not_eq_true' _).mp hopen, hshort⟩
  rw [← hS.channels q]
  exact hat.1

private theorem Stuck.waitsForFreespace (h : Stuck N k s) (hs : (N.machine k).ReachableBy (Steady N k) s) {q : κ} {t c : Nat}
    {grown : Bool} (hw : (s.queue q).writer = .waiting t c grown) :
    WaitsForFreespace N s (N.writer q) (N.reader q) := by
  have hS := accounted_of_reachableBy (steady_careful hs)
  have hqueue := queue_reachableBy hs q
  have hat := (hS.sound q).writer
  rw [hw] at hat
  have hsleeps : (s.queue q).q.cond .writer = true := by
    by_contra hawake
    have hnone := h.localNext (a := ⟨q, .writerWakes⟩) trivial fun op hop => by cases hop
    simp only [ProcessNetwork.localNext, hw, h.lockFree q, eq_false_of_ne_true hawake, and_self, if_true] at hnone
    cases hnone
  have hblocked := ((LocalState.noLostWakeup_of_reachableBy hqueue).writer hsleeps).2
  rw [Queue.writeBlocked, Bool.and_eq_true, decide_eq_true_eq] at hblocked
  obtain ⟨hshort, hopen⟩ := hblocked
  have hrequest : (Queue.base (s.queue q).q).writerequest = t :=
    (LocalState.requests_of_reachableBy hqueue).writer t c grown hw
  rw [hrequest] at hshort
  refine ⟨q, t, c, rfl, rfl, hS.reserving q t c (by rw [hw]; rfl), ?_, (Bool.not_eq_true' _).mp hopen, hshort⟩
  rw [← hS.channels q]
  exact hat.1

/-- A node whose program asks for something that its queue takes waits for the node at the other end. -/
theorem Stuck.waits (h : Stuck N k s) (hs : (N.machine k).ReachableBy (Steady N k) s) {op : Op κ}
    (hop : N.program (N.owner op) (s.trace (N.owner op)) = some op) (husable : Usable (s.queue op.queue) op) :
    (N.owner op = N.reader op.queue ∧ WaitsForData N s (N.reader op.queue) (N.writer op.queue)) ∨
      N.owner op = N.writer op.queue ∧ WaitsForFreespace N s (N.writer op.queue) (N.reader op.queue) := by
  have hS := accounted_of_reachableBy (steady_careful hs)
  have hlock := h.lockFree op.queue
  -- the step that begins the operation
  have hbegin (l : LocalAct) (hown : OwnStep l) (hl : Network.begins op.queue l = some op) :
      ProcessNetwork.localNext k (s.queue op.queue) l = none := by
    refine h.localNext (a := ⟨op.queue, l⟩) hown fun op' hop' => ?_
    rw [hl] at hop'
    cases hop'
    exact ⟨not_stopped (steady_careful hs), hop⟩
  -- a thread is outside, or in the call that its node asks for
  have hreader (hown : N.owner op = N.reader op.queue) : (s.queue op.queue).reader = .idle ∨
      N.owner op = N.reader op.queue ∧ WaitsForData N s (N.reader op.queue) (N.writer op.queue) := by
    cases hr : (s.queue op.queue).reader with
    | idle => exact .inl rfl
    | loop t c => exact absurd hr (h.reader_ne op.queue)
    | waiting t c => exact .inr ⟨hown, h.waitsForData hs hr⟩
  have hwriter (hown : N.owner op = N.writer op.queue) : (s.queue op.queue).writer = .idle ∨
      N.owner op = N.writer op.queue ∧ WaitsForFreespace N s (N.writer op.queue) (N.reader op.queue) := by
    cases hw : (s.queue op.queue).writer with
    | idle => exact .inl rfl
    | loop t c grown => exact absurd hw (h.writer_ne op.queue)
    | waiting t c grown => exact .inr ⟨hown, h.waitsForFreespace hs hw⟩
  cases op with
  | getRawDequeuePtr q t c =>
    have husable : c < (s.queue q).q.queue.numChannels := husable
    refine .inl ((hreader rfl).resolve_left fun hidle => ?_)
    have hnone : ProcessNetwork.localNext k (s.queue q) (.getRawDequeuePtr t c) = none := hbegin _ trivial rfl
    rw [ProcessNetwork.localNext, if_pos ⟨hlock, hidle, husable⟩] at hnone
    cases hnone
  | dequeue q n =>
    have husable : n ≤ if (s.queue q).q.indequeue then (s.queue q).q.dequeuethresh else 0 := husable
    refine .inl ((hreader rfl).resolve_left fun hidle => ?_)
    have hnone : ProcessNetwork.localNext k (s.queue q) (.dequeue n) = none := hbegin _ trivial rfl
    rw [ProcessNetwork.localNext, if_pos ⟨hlock, hidle, husable⟩] at hnone
    cases hnone
  | getRawEnqueuePtr q t c =>
    have husable : c < (s.queue q).q.queue.numChannels := husable
    refine .inr ((hwriter rfl).resolve_left fun hidle => ?_)
    have hnone : ProcessNetwork.localNext k (s.queue q) (.getRawEnqueuePtr t c) = none := hbegin _ trivial rfl
    rw [ProcessNetwork.localNext, if_pos ⟨hlock, hidle, husable⟩] at hnone
    cases hnone
  | write q c off b =>
    refine .inr ((hwriter rfl).resolve_left fun hidle => ?_)
    obtain ⟨p, hp, rfl, hoff⟩ := husable
    have hnone : ProcessNetwork.localNext k (s.queue q) (.write p off b) = none := hbegin _ trivial rfl
    rw [ProcessNetwork.localNext, if_pos ⟨hidle, hp, hoff⟩] at hnone
    cases hnone
  | enqueue q n =>
    have husable : n ≤ if (s.queue q).q.inenqueue then (s.queue q).q.enqueuethresh else 0 := husable
    refine .inr ((hwriter rfl).resolve_left fun hidle => ?_)
    have hnone : ProcessNetwork.localNext k (s.queue q) (.enqueue n) = none := hbegin _ trivial rfl
    rw [ProcessNetwork.localNext, if_pos ⟨hlock, hidle, husable⟩] at hnone
    cases hnone
  | shutdownReader q =>
    have hnone : ProcessNetwork.localNext k (s.queue q) .shutdownReader = none := hbegin _ trivial rfl
    rw [ProcessNetwork.localNext, if_pos (h.lockFree q)] at hnone
    cases hnone
  | shutdownWriter q =>
    have hnone : ProcessNetwork.localNext k (s.queue q) .shutdownWriter = none := hbegin _ trivial rfl
    rw [ProcessNetwork.localNext, if_pos (h.lockFree q)] at hnone
    cases hnone

/-- In a stuck state in which nodes that have ended have let go of their queues, and the other ones ask for something
possible, each of these waits, for one of them: there is a cycle. -/
theorem stuck_in_cycle [Finite ι] (hs : (N.machine k).ReachableBy (Steady N k) s) (h : Stuck N k s)
    (husable : ∀ i op, N.program i (s.trace i) = some op → N.owner op = i ∧ Usable (s.queue op.queue) op)
    (hreader : ∀ q, N.program (N.reader q) (s.trace (N.reader q)) = none → (s.queue q).q.readshutdown = true)
    (hwriter : ∀ q, N.program (N.writer q) (s.trace (N.writer q)) = none → (s.queue q).q.writeshutdown = true) :
    (∀ i, N.program i (s.trace i) ≠ none → ∃ j, N.program j (s.trace j) ≠ none ∧ Waits N s i j) ∧
      ((∃ i, N.program i (s.trace i) ≠ none) → ∃ i, N.program i (s.trace i) ≠ none ∧ TransGen (Waits N s) i i) := by
  have hnext (i : ι) (hi : N.program i (s.trace i) ≠ none) : ∃ j, N.program j (s.trace j) ≠ none ∧ Waits N s i j := by
    obtain ⟨op, hop⟩ := Option.ne_none_iff_exists'.1 hi
    obtain ⟨rfl, hop'⟩ := husable i op hop
    obtain ⟨heq, hwaits⟩ | ⟨heq, hwaits⟩ := h.waits hs hop hop'
    · refine ⟨N.writer op.queue, fun hended => ?_, .inl (heq ▸ hwaits)⟩
      obtain ⟨q, t, c, -, hq, -, -, hopen, -⟩ := hwaits
      have hclosed := hwriter q (hq ▸ hended)
      rw [QueueBase.shutdown, hclosed, Bool.or_true] at hopen
      cases hopen
    · refine ⟨N.reader op.queue, fun hended => ?_, .inr (heq ▸ hwaits)⟩
      obtain ⟨q, t, c, -, hq, -, -, hopen, -⟩ := hwaits
      have hclosed := hreader q (hq ▸ hended)
      rw [QueueBase.shutdown, hclosed, Bool.true_or] at hopen
      cases hopen
  refine ⟨hnext, fun hleft => ?_⟩
  obtain ⟨i, hi⟩ := hleft
  exact exists_cycle (p := fun i => N.program i (s.trace i) ≠ none) hi hnext

end Stuck

/-! ### Deadlocks of readers -/

/-- Nodes of which each has ended or needs bytes of another one do not get any further than they are. -/
theorem not_further {p : ι → Prop} (hs : (N.machine k).ReachableBy (Careful N k) s)
    (hp : ∀ i, p i → N.program i (s.trace i) = none ∨ ∃ j, p j ∧ WaitsForData N s i j)
    (hu : (N.machine k').ReachableBy (Careful N k') u) :
    ∀ i, p i → u.trace i <+: s.trace i := by
  have hS := accounted_of_reachableBy hs
  refine hu.invariant_of (I := fun u => ∀ i, p i → u.trace i <+: s.trace i)
    (J := fun u => (N.machine k').ReachableBy (Careful N k') u) (fun _ hu => hu) (fun u hu i hi => ?_)
    fun u a u' hu ih hok hn i hi => ?_
  · rw [hu.2.1 i]
    exact List.nil_prefix
  have hU := accounted_of_reachableBy hu
  obtain htrace | ⟨e, htrace, hprogram, hjustified⟩ := hU.trace_cases hok.2 hn
  · rw [htrace]
    exact ih i hi
  have hcomparable := comparable_traces (hu.step hok hn) hs i
  rw [htrace, Network.extend] at hcomparable ⊢
  by_cases hi' : i = N.owner e.op
  · rw [← hi'] at hcomparable hprogram hjustified ⊢
    rw [Function.update_self] at hcomparable ⊢
    obtain hle | hge := hcomparable
    · exact hle
    obtain heq | hle := List.prefix_concat_iff.1 hge
    · rw [heq]
    -- the node has done what it has done in `s`, and does the read that it waits for there
    have hsame := (ih i hi).eq_of_length (le_antisymm (ih i hi).length_le hle.length_le)
    rw [hsame] at hprogram
    obtain hended | ⟨j, hj, q, t, c, hreader, rfl, hread, hchan, hopen, hshort⟩ := hp i hi
    · rw [hended] at hprogram
      cases hprogram
    rw [hread] at hprogram
    rw [hsame] at hjustified
    unfold Network.Justified at hjustified
    rw [← Option.some.inj hprogram] at hjustified
    obtain ⟨hresult, hnull⟩ := hjustified
    -- the writer has not put in more than in `s`
    have hext : (ledger q (u.trace (N.writer q))).Extends (ledger q (s.trace (N.writer q))) := ledger_extends (ih _ hj)
    have hbooks := hS.books q
    have hchan' : c < (s.queue q).q.queue.numChannels := (hS.channels q).symm ▸ hchan
    have hlength := (hS.sound q).carries.holds.length_eq c hchan'
    have hle := (hS.sound q).dequeued_le c hchan'
    rw [LocalState.pending, List.length_drop] at hlength
    have hnone : (ledger q (u.trace (N.writer q))).read (N.channels q) c
        (consumed q (s.trace i)) t = none := by
      have hstream := (hext.stream c).length_le
      refine if_neg fun henough => ?_
      rw [← hbooks.stream c hchan'] at hstream
      rw [← hreader, ← hbooks.dequeued] at henough
      omega
    have hclosed := (hext.closed (hnull (hresult.trans hnone))).1
    rw [← hbooks.closed] at hclosed
    rw [QueueBase.shutdown, hclosed, Bool.or_true] at hopen
    cases hopen
  · rw [Function.update_of_ne hi']
    exact ih i hi

/-- The node `true` writes one byte for the node `false`, and then each of them wants one more. -/
def facing : Network Bool Bool where
  reader q := q
  writer q := !q
  channels _ := 1
  program
    | true, trace => [Op.getRawEnqueuePtr false 1 0, .write false 0 0 5, .enqueue false 1,
        .getRawDequeuePtr true 1 0][trace.length]?
    | false, trace => [Op.getRawDequeuePtr false 1 0, .dequeue false 1, .getRawDequeuePtr false 1 0][trace.length]?

def startFacing (length : Nat) : State Bool Bool where
  queue _ := localStart (.standard false) length 1 1
  trace _ := []
  stopped _ := false

def faceEachOther : List (Act Bool) :=
  [⟨false, .getRawEnqueuePtr 1 0⟩, ⟨false, .enqueuePass⟩, ⟨false, .write ⟨0, 1, ⟨0, 0⟩⟩ 0 5⟩, ⟨false, .enqueue 1⟩,
    ⟨true, .getRawDequeuePtr 1 0⟩, ⟨true, .dequeuePass⟩, ⟨false, .getRawDequeuePtr 1 0⟩, ⟨false, .dequeuePass⟩,
    ⟨false, .dequeue 1⟩, ⟨false, .getRawDequeuePtr 1 0⟩, ⟨false, .dequeuePass⟩]

/-- Both nodes are where their last read waits. -/
def Facing (s : State Bool Bool) : Prop :=
  ∀ i, facing.program i (s.trace i) = some (.getRawDequeuePtr i 1 0) ∧ (s.queue i).reader = .waiting 1 0 ∧
    (s.queue i).writer = .idle ∧ (s.queue i).q.cond .reader = true ∧ (s.queue i).q.shutdown = false ∧
    (s.queue i).q.queue.numChannels = 1 ∧ (s.queue i).q.queue.count = 0

instance : DecidablePred Facing := fun s => inferInstanceAs (Decidable (∀ i, facing.program i (s.trace i) = some _ ∧ _))

private theorem exists_facing : ∃ s, (facing.machine (.standard false)).ReachableBy (Steady facing (.standard false)) s ∧
    Facing s := by
  have hrun : ((facing.machine (.standard false)).runBy (Steady facing (.standard false)) (startFacing 1) faceEachOther).any
      fun s => Facing s := by
    decide +kernel
  obtain ⟨s, hs, hend⟩ := Machine.exists_reachableBy
    (⟨fun _ => ⟨1, 1, rfl⟩, fun _ => rfl, fun _ => rfl⟩ : (facing.machine (.standard false)).init (startFacing 1)) hrun
  exact ⟨s, hs, of_decide_eq_true hend⟩

/-- The programs ask for nothing but the reads, in which the readers are. -/
theorem Facing.stuck {s : State Bool Bool} (h : Facing s) : Stuck facing (.standard false) s := by
  rintro ⟨q, l⟩ hown
  obtain ⟨-, hr, hw, hc, -⟩ := h q
  rw [Network.next]
  split_ifs with hasks
  · rw [Option.map_eq_none_iff]
    have hasked {op : Op Bool} (hop : Network.begins q l = some op) : ∃ i, op = .getRawDequeuePtr i 1 0 := by
      have hprogram := (hasks op hop).2
      rw [(h (facing.owner op)).1] at hprogram
      exact ⟨facing.owner op, (Option.some.inj hprogram).symm⟩
    dsimp only
    cases l with
    | getRawDequeuePtr t c => simp [localNext, hr]
    | dequeuePass => simp [localNext, hr]
    | readerWakes => simp [localNext, hr, hc]
    | dequeue n => simp [localNext, hr]
    | enqueuePass => simp [localNext, hw]
    | writerWakes => simp [localNext, hw]
    | getRawEnqueuePtr t c =>
      obtain ⟨i, hi⟩ := hasked rfl
      cases hi
    | write p off b =>
      obtain ⟨i, hi⟩ := hasked rfl
      cases hi
    | enqueue n =>
      obtain ⟨i, hi⟩ := hasked rfl
      cases hi
    | shutdownReader =>
      obtain ⟨i, hi⟩ := hasked rfl
      cases hi
    | shutdownWriter =>
      obtain ⟨i, hi⟩ := hasked rfl
      cases hi
    | grow len mt => exact hown.elim
    | detect => exact hown.elim
    | deadlock => exact hown.elim
    | spuriousWakeup t => exact hown.elim
  · rfl

private theorem Facing.usable {s : State Bool Bool} (h : Facing s) (i : Bool) (op : Op Bool)
    (hop : facing.program i (s.trace i) = some op) : facing.owner op = i ∧ Usable (s.queue op.queue) op := by
  rw [(h i).1] at hop
  cases hop
  have hchannels : 0 < (s.queue i).q.queue.numChannels := by
    rw [(h i).2.2.2.2.2.1]
    exact Nat.one_pos
  exact ⟨rfl, hchannels⟩

theorem stuck_in_cycle_facing : ∃ s, (facing.machine (.standard false)).ReachableBy (Steady facing (.standard false)) s ∧
    (∀ i, ∃ j, Waits facing s i j) ∧ ∃ i, TransGen (Waits facing s) i i := by
  obtain ⟨s, hs, h⟩ := exists_facing
  have hgoing (i : Bool) : facing.program i (s.trace i) ≠ none := by
    rw [(h i).1]
    exact Option.some_ne_none _
  obtain ⟨hwaits, hcycle⟩ := stuck_in_cycle hs h.stuck h.usable (fun q hended => absurd hended (hgoing _))
    fun q hended => absurd hended (hgoing _)
  obtain ⟨i, -, hi⟩ := hcycle ⟨true, hgoing true⟩
  refine ⟨s, hs, fun i => ?_, i, hi⟩
  obtain ⟨j, -, hj⟩ := hwaits i (hgoing i)
  exact ⟨j, hj⟩

/-- Another run, with longer queues: the node `false` comes first. -/
def readFirst : List (Act Bool) :=
  [⟨false, .getRawDequeuePtr 1 0⟩, ⟨false, .dequeuePass⟩, ⟨false, .getRawEnqueuePtr 1 0⟩, ⟨false, .enqueuePass⟩,
    ⟨false, .write ⟨0, 1, ⟨0, 0⟩⟩ 0 5⟩, ⟨false, .enqueue 1⟩, ⟨false, .readerWakes⟩, ⟨false, .dequeuePass⟩]

private theorem exists_readFirst : ∃ u, (facing.machine (.standard false)).ReachableBy (Careful facing (.standard false)) u ∧
    (u.queue false).q.queue.queueLength = 7 ∧ (u.trace false).length = 1 := by
  have hrun : ((facing.machine (.standard false)).runBy (Careful facing (.standard false)) (startFacing 7) readFirst).any
      fun u => (u.queue false).q.queue.queueLength = 7 ∧ (u.trace false).length = 1 := by
    decide +kernel
  obtain ⟨u, hu, hend⟩ := Machine.exists_reachableBy
    (⟨fun _ => ⟨7, 1, rfl⟩, fun _ => rfl, fun _ => rfl⟩ : (facing.machine (.standard false)).init (startFacing 7)) hrun
  exact ⟨u, hu, of_decide_eq_true hend⟩

end ProcessNetwork.LocalNetwork
