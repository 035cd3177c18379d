import ProcessNetwork.LocalNetwork

/-!
# Networks are determinate

Whatever the lengths and thresholds of the queues and whatever the order of the steps, two careful runs of a network can
only differ in how far the nodes have come: what a node has done and read, and what has been put into a queue, are comparable
(`network_determinate`).
-/

namespace ProcessNetwork.LocalNetwork

open LocalState (Sound)

variable {ι κ : Type} [DecidableEq κ]

/-! ### The books are kept -/

namespace Outcome

variable {ι : Type}

def ledger (q : κ) (d : Ledger) : Outcome ι κ → Ledger
  | returns e => d.step q e
  | goesOn | throws _ => d

def consumed (q : κ) (n : Nat) : Outcome ι κ → Nat
  | returns e => consumedStep q n e
  | goesOn | throws _ => n

end Outcome

section Steps

variable {N : Network ι κ} {k : KernelBase} {q : κ} {u u' : LocalState} {l : LocalAct} {d : Ledger} {n : Nat}

/-- The steps that change neither the bytes nor the flags. -/
def Quiet : LocalAct → Prop
  | .dequeue _ | .write .. | .enqueue _ | .shutdownReader | .shutdownWriter => False
  | _ => True

private theorem outcome_of_quiet (hl : Quiet l) (q' : κ) :
    (N.outcome k q u l).ledger q' d = d ∧ (N.outcome k q u l).consumed q' n = n := by
  generalize ho : N.outcome k q u l = o
  cases o with
  | goesOn => exact ⟨rfl, rfl⟩
  | throws i => exact ⟨rfl, rfl⟩
  | returns e =>
    obtain ⟨hbegins, -, hblocking⟩ | ⟨t, c, ptr, r, -, -, -, rfl⟩ | ⟨t, c, grown, ptr, r, -, -, -, rfl⟩ := returns_cases ho
    · cases l with
      | dequeue count => exact hl.elim
      | write p off b => exact hl.elim
      | enqueue count => exact hl.elim
      | shutdownReader => exact hl.elim
      | shutdownWriter => exact hl.elim
      | getRawDequeuePtr thresh chan =>
        rw [← Option.some.inj hbegins] at hblocking
        cases hblocking
      | getRawEnqueuePtr thresh chan =>
        rw [← Option.some.inj hbegins] at hblocking
        cases hblocking
      | dequeuePass => cases hbegins
      | readerWakes => cases hbegins
      | enqueuePass => cases hbegins
      | writerWakes => cases hbegins
      | grow len mt => cases hbegins
      | detect => cases hbegins
      | deadlock => cases hbegins
      | spuriousWakeup t => cases hbegins
    · exact ⟨rfl, rfl⟩
    · exact ⟨rfl, rfl⟩

private theorem outcome_of_ne {q' : κ} (hne : q ≠ q') :
    (N.outcome k q u l).ledger q' d = d ∧ (N.outcome k q u l).consumed q' n = n := by
  cases l with
  | dequeue count =>
    rw [Network.outcome]
    split_ifs
    · exact ⟨rfl, rfl⟩
    · exact ⟨rfl, if_neg hne⟩
  | enqueue count =>
    rw [Network.outcome]
    split_ifs
    · exact ⟨rfl, rfl⟩
    · exact ⟨if_neg hne, rfl⟩
  | write p off b => exact ⟨if_neg hne, rfl⟩
  | shutdownReader => exact ⟨rfl, rfl⟩
  | shutdownWriter => exact ⟨if_neg hne, rfl⟩
  | _ =>
    refine outcome_of_quiet ?_ q'
    trivial

private theorem Books.quiet (h : Books u d n) (hu : Sound u) (hl : Quiet l) (hok : u.NotBroken l)
    (hs : LocalState.Step k u l u') :
    Books u' ((N.outcome k q u l).ledger q d) ((N.outcome k q u l).consumed q n) := by
  have haff := hu.affects hok hs
  have hext := hu.extends hs
  have henqueue (m : Nat) : l ≠ .enqueue m := by
    rintro rfl
    exact hl
  have hwrite (p : HeldPtr) (off : Nat) (b : Byte) : l ≠ .write p off b := by
    rintro rfl
    exact hl
  have hdequeue (m : Nat) : l ≠ .dequeue m := by
    rintro rfl
    exact hl
  have hshutdown : l ≠ .shutdownWriter := by
    rintro rfl
    exact hl
  obtain ⟨hledger, hconsumed⟩ := outcome_of_quiet (N := N) (k := k) (q := q) (u := u) (d := d) (n := n) hl q
  rw [hledger, hconsumed]
  refine ⟨(haff.written henqueue hwrite).trans h.written, fun c hc => ?_, ?_, (hext.dequeued hdequeue).1.trans h.dequeued⟩
  · rw [haff.enqueued henqueue]
    exact h.stream c (haff.numChannels ▸ hc)
  · rw [hext.writeshutdown, decide_eq_false hshutdown, Bool.or_false]
    exact h.closed

private theorem Books.step (h : Books u d n) (hsound : Sound u) (hl : (N.outcome k q u l).Fine) (hdet : Determined u l)
    (hn : localNext k u l = some u') :
    Books u' ((N.outcome k q u l).ledger q d) ((N.outcome k q u l).consumed q n) := by
  have hok := notBroken_of_fine hl
  have hstep := LocalState.step_of_localNext hn
  have hext := hsound.extends hstep
  cases l with
  | dequeue count =>
    cases hstep with
    | dequeue hlock hr hle =>
      have hrs : u.q.readshutdown = false := hok
      obtain ⟨henq, hwritten, -, -, hnum, hdeq⟩ := LocalState.dequeue_eq u count
      have hout : N.outcome k q u (.dequeue count) = .returns { op := .dequeue q count } := by
        rw [Network.outcome, hrs]
        rfl
      rw [hout]
      refine ⟨hwritten.trans h.written, fun c hc => ?_, ?_, ?_⟩
      · rw [henq]
        exact h.stream c (hnum ▸ hc)
      · rw [hext.writeshutdown]
        exact (Bool.or_false _).trans h.closed
      · rw [hdeq hrs, h.dequeued]
        exact (if_pos rfl).symm
  | write p off b =>
    cases hstep with
    | write hw hp hoff =>
      obtain ⟨q', hwrite, hnum⟩ := hsound.write_eq b hp hoff
      have hclosed := hext.writeshutdown
      rw [hwrite] at hclosed ⊢
      have hledger : (N.outcome k q u (.write p off b)).ledger q d = { d with
          written := Function.update d.written p.chan (Function.update (d.written p.chan) off (some b)) } := if_pos rfl
      rw [hledger]
      refine ⟨?_, fun c hc => h.stream c (hnum ▸ hc), ?_, h.dequeued⟩
      · rw [h.written]
      · exact hclosed.trans ((Bool.or_false _).trans h.closed)
  | enqueue count =>
    cases hstep with
    | enqueue hlock hw hle =>
      have hws : u.q.writeshutdown = false := hok
      obtain ⟨henq, hwritten, -, -, hnum⟩ := hsound.enqueue_eq hle hws
      have hout : N.outcome k q u (.enqueue count) = .returns { op := .enqueue q count } := by
        rw [Network.outcome, hws]
        rfl
      have hopen : d.closed = false := h.closed.symm.trans hws
      have hledger : (Outcome.returns (ι := ι) { op := .enqueue q count }).ledger q d = { d with
          written := fun _ _ => none
          stream := fun c => d.stream c ++ (List.range count).map fun off => (d.written c off).getD 0 } := by
        refine (if_pos rfl).trans ?_
        rw [hopen]
        rfl
      rw [hout, hledger]
      refine ⟨hwritten, fun c hc => ?_, ?_, (hext.dequeued fun m heq => by cases heq).1.trans h.dequeued⟩
      · have hc' : c < u.q.queue.numChannels := hnum ▸ hc
        rw [henq]
        dsimp only
        -- every byte passed on has been written by the node, so that it does not depend on the state
        rw [LocalState.newBytes_of_written (hdet c hc'), h.stream c hc', h.written]
      · rw [hext.writeshutdown]
        exact (Bool.or_false _).trans h.closed
  | shutdownReader =>
    cases hstep with
    | shutdownReader hlock => exact ⟨h.written, h.stream, h.closed, h.dequeued⟩
  | shutdownWriter =>
    cases hstep with
    | shutdownWriter hlock =>
      have hledger : (N.outcome k q u .shutdownWriter).ledger q d = { d with closed := true } := if_pos rfl
      rw [hledger]
      exact ⟨h.written, h.stream, rfl, h.dequeued⟩
  | getRawDequeuePtr t c => exact h.quiet hsound trivial hok hstep
  | getRawEnqueuePtr t c => exact h.quiet hsound trivial hok hstep
  | dequeuePass => exact h.quiet hsound trivial hok hstep
  | readerWakes => exact h.quiet hsound trivial hok hstep
  | enqueuePass => exact h.quiet hsound trivial hok hstep
  | writerWakes => exact h.quiet hsound trivial hok hstep
  | grow len mt => exact h.quiet hsound trivial hok hstep
  | detect => exact h.quiet hsound trivial hok hstep
  | deadlock => exact h.quiet hsound trivial hok hstep
  | spuriousWakeup t => exact h.quiet hsound trivial hok hstep

end Steps

/-! ### Runs -/

section Runs

variable {N : Network ι κ} {k : KernelBase} {s s' : State ι κ} {a : Act κ}

structure Accounted (N : Network ι κ) (s : State ι κ) : Prop where
  sound : ∀ q, Sound (s.queue q)
  channels : ∀ q, (s.queue q).q.queue.numChannels = N.channels q
  books : ∀ q, Books (s.queue q) (ledger q (s.trace (N.writer q))) (consumed q (s.trace (N.reader q)))
  /-- The calls in which the threads are are those that the programs ask for. -/
  reading : ∀ q t c, (s.queue q).reader.call = some (t, c) →
    N.program (N.reader q) (s.trace (N.reader q)) = some (.getRawDequeuePtr q t c)
  reserving : ∀ q t c, (s.queue q).writer.call = some (t, c) →
    N.program (N.writer q) (s.trace (N.writer q)) = some (.getRawEnqueuePtr q t c)
  history : N.IsHistory s.trace

/-- The operation that returns is the one that the program asks for, and its result is right. -/
theorem Accounted.returned (hs : Accounted N s) {q : κ} {l : LocalAct} {e : Event κ}
    (hasks : ∀ op ∈ Network.begins q l, N.program (N.owner op) (s.trace (N.owner op)) = some op)
    (hdet : Determined (s.queue q) l) (he : N.outcome k q (s.queue q) l = .returns e) :
    N.program (N.owner e.op) (s.trace (N.owner e.op)) = some e.op ∧ N.Justified s.trace (s.trace (N.owner e.op)) e := by
  obtain ⟨hbegins, hresult, hblocking⟩ | ⟨t, c, ptr, q', rfl, hr, hret, rfl⟩ | ⟨t, c, grown, ptr, q', rfl, hw, hret, rfl⟩ :=
    returns_cases he
  · refine ⟨hasks e.op hbegins, ?_⟩
    unfold Network.Justified
    split
    · rename_i q' t c hop
      rw [hop] at hblocking
      cases hblocking
    · exact hresult
  · have hbooks := hs.books q
    obtain ⟨hresult, hnull⟩ := read_result (hs.sound q) hr hdet hbooks.stream hret
    rw [hbooks.dequeued, hs.channels q] at hresult
    rw [hbooks.closed] at hnull
    exact ⟨hs.reading q t c (by rw [hr]; rfl), hresult, hnull⟩
  · exact ⟨hs.reserving q t c (by rw [hw]; rfl), rfl⟩

variable [DecidableEq ι]

private theorem ledger_settle (N : Network ι κ) (s : State ι κ) (o : Outcome ι κ) (q : κ) :
    ledger q ((N.settle s o).trace (N.writer q)) = o.ledger q (ledger q (s.trace (N.writer q))) ∧
      consumed q ((N.settle s o).trace (N.reader q)) = o.consumed q (consumed q (s.trace (N.reader q))) := by
  cases o with
  | goesOn => exact ⟨rfl, rfl⟩
  | throws i => exact ⟨rfl, rfl⟩
  | returns e => exact ⟨ledger_extend q, consumed_extend q⟩

/-- A step that goes on in a history. -/
theorem Accounted.trace_cases (hs : Accounted N s) (hdet : Determined (s.queue a.q) a.act) (hn : N.next k s a = some s') :
    s'.trace = s.trace ∨ ∃ e, s'.trace = Network.extend s.trace (N.owner e.op) e ∧
      N.program (N.owner e.op) (s.trace (N.owner e.op)) = some e.op ∧ N.Justified s.trace (s.trace (N.owner e.op)) e := by
  unfold Network.next at hn
  split_ifs at hn with hasks
  obtain ⟨u', hu', rfl⟩ := Option.map_eq_some_iff.1 hn
  obtain ⟨htrace, -⟩ | ⟨e, he, htrace⟩ := (N.settle_cases { s with queue := Function.update s.queue a.q u' }
    (N.outcome k a.q (s.queue a.q) a.act)).2
  · exact .inl htrace
  · exact .inr ⟨e, htrace, hs.returned (fun op hop => (hasks op hop).2) hdet he⟩

private theorem Accounted.next (hs : Accounted N s) (hok : Careful N k s a) (hn : N.next k s a = some s') :
    Accounted N s' := by
  have hhistory := hs.trace_cases hok.2 hn
  obtain ⟨q, l⟩ := a
  obtain ⟨hfine, hdet⟩ := hok
  unfold Network.next at hn
  split_ifs at hn with hasks
  obtain ⟨u', hu', hs'⟩ := Option.map_eq_some_iff.1 hn
  dsimp only at hasks hfine hdet hu' hs'
  have hasks' : ∀ op ∈ Network.begins q l, N.program (N.owner op) (s.trace (N.owner op)) = some op :=
    fun op hop => (hasks op hop).2
  have hok := notBroken_of_fine hfine
  have hstep := LocalState.step_of_localNext hu'
  have haff := (hs.sound q).affects hok hstep
  have hqueue : s'.queue = Function.update s.queue q u' := by
    rw [← hs', (N.settle_cases ..).1]
  have hat (q' : κ) : q' = q ∧ s'.queue q' = u' ∨ q' ≠ q ∧ s'.queue q' = s.queue q' := by
    rw [hqueue]
    by_cases heq : q' = q
    · subst heq
      exact .inl ⟨rfl, Function.update_self ..⟩
    · exact .inr ⟨heq, Function.update_of_ne heq ..⟩
  have hledger (q' : κ) := ledger_settle N { s with queue := Function.update s.queue q u' } (N.outcome k q (s.queue q) l) q'
  have htrace := (N.settle_cases { s with queue := Function.update s.queue q u' } (N.outcome k q (s.queue q) l)).2
  rw [hs'] at hledger htrace
  dsimp only at hledger htrace
  -- what a node waits for before the step
  have hreading (q' : κ) (t c : Nat) (h : (s'.queue q').reader.call = some (t, c)) :
      N.program (N.reader q') (s.trace (N.reader q')) = some (.getRawDequeuePtr q' t c) := by
    obtain ⟨rfl, hq'⟩ | ⟨-, hq'⟩ := hat q'
    · rw [hq'] at h
      obtain hnone | hsame | ⟨t', c', rfl, hcall⟩ := haff.reader
      · rw [h] at hnone
        cases hnone
      · exact hs.reading q' t c (hsame.symm.trans h)
      · rw [h] at hcall
        cases hcall
        exact hasks' _ rfl
    · exact hs.reading q' t c (hq' ▸ h)
  have hreserving (q' : κ) (t c : Nat) (h : (s'.queue q').writer.call = some (t, c)) :
      N.program (N.writer q') (s.trace (N.writer q')) = some (.getRawEnqueuePtr q' t c) := by
    obtain ⟨rfl, hq'⟩ | ⟨-, hq'⟩ := hat q'
    · rw [hq'] at h
      obtain hnone | hsame | ⟨t', c', rfl, hcall⟩ := haff.writer
      · rw [h] at hnone
        cases hnone
      · exact hs.reserving q' t c (hsame.symm.trans h)
      · rw [h] at hcall
        cases hcall
        exact hasks' _ rfl
    · exact hs.reserving q' t c (hq' ▸ h)
  -- a node whose operation returns does not wait for another one
  have hother {e : Event κ} (he : N.outcome k q (s.queue q) l = .returns e) {i : ι} {op : Op κ}
      (hop : N.program i (s.trace i) = some op) (hne : e.op ≠ op) :
      N.program i (Network.extend s.trace (N.owner e.op) e i) = some op := by
    unfold Network.extend
    by_cases heq : i = N.owner e.op
    · subst heq
      rw [(hs.returned hasks' hdet he).1] at hop
      exact absurd (Option.some.inj hop) hne
    · rw [Function.update_of_ne heq]
      exact hop
  refine ⟨fun q' => ?_, fun q' => ?_, fun q' => ?_, fun q' t c h => ?_, fun q' t c h => ?_, ?_⟩
  · obtain ⟨rfl, hq'⟩ | ⟨-, hq'⟩ := hat q'
    · rw [hq']
      exact (hs.sound q').next hok hstep
    · rw [hq']
      exact hs.sound q'
  · obtain ⟨rfl, hq'⟩ | ⟨-, hq'⟩ := hat q'
    · rw [hq', haff.numChannels]
      exact hs.channels q'
    · rw [hq']
      exact hs.channels q'
  · rw [(hledger q').1, (hledger q').2]
    obtain ⟨rfl, hq'⟩ | ⟨hne, hq'⟩ := hat q'
    · rw [hq']
      exact (hs.books q').step (hs.sound q') hfine hdet hu'
    · obtain ⟨h1, h2⟩ := outcome_of_ne (N := N) (k := k) (u := s.queue q) (l := l)
        (d := ledger q' (s.trace (N.writer q'))) (n := consumed q' (s.trace (N.reader q'))) hne.symm
      rw [hq', h1, h2]
      exact hs.books q'
  · obtain ⟨htrace, -⟩ | ⟨e, he, htrace⟩ := htrace
    · rw [htrace]
      exact hreading q' t c h
    · rw [htrace]
      refine hother he (hreading q' t c h) fun hop => ?_
      obtain ⟨rfl, hnone⟩ := (call_of_returns hu' he).1 q' t c hop
      rw [hqueue, Function.update_self, hnone] at h
      cases h
  · obtain ⟨htrace, -⟩ | ⟨e, he, htrace⟩ := htrace
    · rw [htrace]
      exact hreserving q' t c h
    · rw [htrace]
      refine hother he (hreserving q' t c h) fun hop => ?_
      obtain ⟨rfl, hnone⟩ := (call_of_returns hu' he).2 q' t c hop
      rw [hqueue, Function.update_self, hnone] at h
      cases h
  · obtain htrace | ⟨e, htrace, hprogram, hjustified⟩ := hhistory
    · rw [htrace]
      exact hs.history
    · rw [htrace]
      exact hs.history.extend hprogram hjustified

private theorem Accounted.init (hs : (N.machine k).init s) : Accounted N s := by
  obtain ⟨hqueue, htrace, -⟩ := hs
  have hidle (q : κ) : (s.queue q).reader.call = none ∧ (s.queue q).writer.call = none := by
    obtain ⟨length, maxThreshold, hq⟩ := hqueue q
    rw [hq]
    exact ⟨rfl, rfl⟩
  refine ⟨fun q => ?_, fun q => ?_, fun q => ?_, fun q t c h => ?_, fun q t c h => ?_, fun i p e rest h => ?_⟩
  · obtain ⟨length, maxThreshold, hq⟩ := hqueue q
    rw [hq]
    exact Sound.start k length maxThreshold (N.channels q)
  · obtain ⟨length, maxThreshold, hq⟩ := hqueue q
    rw [hq]
    rfl
  · obtain ⟨length, maxThreshold, hq⟩ := hqueue q
    rw [htrace, htrace, hq]
    exact ⟨rfl, fun _ _ => rfl, rfl, rfl⟩
  · rw [(hidle q).1] at h
    cases h
  · rw [(hidle q).2] at h
    cases h
  · rw [htrace] at h
    cases p with
    | nil => cases h
    | cons e' p => cases h

theorem accounted_of_reachableBy (h : (N.machine k).ReachableBy (Careful N k) s) : Accounted N s :=
  h.invariant (fun _ hs => .init hs) fun _ _ _ hs hok hn => hs.next hok hn

/-- What the nodes have done in two runs agrees as far as it goes. -/
theorem comparable_traces {k k' : KernelBase} {s u : State ι κ} (hs : (N.machine k).ReachableBy (Careful N k) s)
    (hu : (N.machine k').ReachableBy (Careful N k') u) (i : ι) : Comparable (s.trace i) (u.trace i) := by
  have hU := accounted_of_reachableBy hu
  refine hs.invariant_of (I := fun s => ∀ i, Comparable (s.trace i) (u.trace i))
    (J := fun s => Accounted N s) (fun s hs => accounted_of_reachableBy hs) (fun s hs i => ?_)
    (fun s a s' hS ih hok hn => ?_) i
  · rw [hs.2.1 i]
    exact .inl List.nil_prefix
  · obtain htrace | ⟨e, htrace, hprogram, hjustified⟩ := hS.trace_cases hok.2 hn
    · rw [htrace]
      exact ih
    · rw [htrace]
      exact hU.history.comparable_extend ih hprogram hjustified

end Runs

/-! ### Two nodes -/

/-- One node writes two bytes and shuts down, the other one reads them and asks for one more. -/
def twoNodes : Network Bool Unit where
  reader _ := true
  writer _ := false
  channels _ := 1
  program
    | false, trace =>
      [Op.getRawEnqueuePtr () 2 0, .write () 0 0 5, .write () 0 1 6, .enqueue () 2, .shutdownWriter ()][trace.length]?
    | true, trace => [Op.getRawDequeuePtr () 2 0, .dequeue () 2, .getRawDequeuePtr () 1 0][trace.length]?

def startTwoNodes (length maxThreshold : Nat) : State Bool Unit where
  queue _ := localStart (.standard false) length maxThreshold 1
  trace _ := []
  stopped _ := false

def writerFirst : List (Act Unit) :=
  [.getRawEnqueuePtr 2 0, .enqueuePass, .write ⟨0, 2, ⟨0, 0⟩⟩ 0 5, .write ⟨0, 2, ⟨0, 0⟩⟩ 1 6, .enqueue 2, .shutdownWriter,
    .getRawDequeuePtr 2 0, .dequeuePass, .dequeue 2, .getRawDequeuePtr 1 0, .dequeuePass].map (Act.mk ())

/-- The queue is too short, and it grows once more while the writer holds a pointer. -/
def readerFirst : List (Act Unit) :=
  [.getRawDequeuePtr 2 0, .dequeuePass, .dequeuePass, .getRawEnqueuePtr 2 0, .enqueuePass, .write ⟨0, 2, ⟨1, 0⟩⟩ 0 5,
    .grow 9 3, .write ⟨0, 2, ⟨1, 0⟩⟩ 1 6, .enqueue 2, .readerWakes, .dequeuePass, .shutdownWriter, .dequeue 2,
    .getRawDequeuePtr 1 0, .dequeuePass].map (Act.mk ())

end ProcessNetwork.LocalNetwork
