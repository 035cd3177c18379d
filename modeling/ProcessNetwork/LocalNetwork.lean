import ProcessNetwork.LocalEffects
import ProcessNetwork.NetworkHistories

/-!
# A network of nodes over local queues

Any number of nodes and local queues in one kernel.  The thread of a node takes the steps of the operation that its program
asks for, one section under the lock of the queue at a time, and blocks in it; other threads grow queues, wake threads and
detect deadlocks at any time.
-/

namespace ProcessNetwork.LocalNetwork

open LocalState (Sound)

/-- What is read through a dequeue pointer: `thresh` bytes of its channel, and of every later one at its stride. -/
def loadChannels (q : ThresholdQueue) (thresh chan : Nat) (p : Ptr) : Option (List (List Byte)) :=
  (List.range (q.queue.numChannels - chan)).mapM fun c =>
    q.load { p with addr := p.addr + c * q.dequeueQueue.channelStride } thresh

variable {ι κ : Type} [DecidableEq κ]

structure State (ι κ : Type) where
  queue : κ → LocalState
  /-- The operations of a node that have returned. -/
  trace : ι → List (Event κ)
  /-- The function of the node has thrown. -/
  stopped : ι → Bool

structure Act (κ : Type) where
  q : κ
  act : LocalAct

/-- What a step is for the operation that it belongs to. -/
inductive Outcome (ι κ : Type)
  | goesOn
  | returns (e : Event κ)
  | throws (i : ι)

namespace Network

variable {ι κ : Type}

/-- The node that does an operation. -/
def owner (N : Network ι κ) : Op κ → ι
  | .getRawDequeuePtr q _ _ | .dequeue q _ | .shutdownReader q => N.reader q
  | .getRawEnqueuePtr q _ _ | .write q _ _ _ | .enqueue q _ | .shutdownWriter q => N.writer q

/-- The operation that a step begins. -/
def begins (q : κ) : LocalAct → Option (Op κ)
  | .getRawDequeuePtr thresh chan => some (.getRawDequeuePtr q thresh chan)
  | .dequeue count => some (.dequeue q count)
  | .getRawEnqueuePtr thresh chan => some (.getRawEnqueuePtr q thresh chan)
  | .write p off b => some (.write q p.chan off b)
  | .enqueue count => some (.enqueue q count)
  | .shutdownReader => some (.shutdownReader q)
  | .shutdownWriter => some (.shutdownWriter q)
  | .dequeuePass | .readerWakes | .enqueuePass | .writerWakes | .grow .. | .detect | .deadlock | .spuriousWakeup _ => none

def dequeueOutcome (N : Network ι κ) (q : κ) (thresh chan : Nat) : Pass ThresholdQueue → Outcome ι κ
  | .returns ptr u => .returns { op := .getRawDequeuePtr q thresh chan, result := ptr.bind (loadChannels u thresh chan) }
  | .broken _ | .fails _ => .throws (N.reader q)
  | .again _ | .growing .. | .waits _ => .goesOn

def enqueueOutcome (N : Network ι κ) (q : κ) (thresh chan : Nat) : Pass (ThresholdQueue × Bool) → Outcome ι κ
  | .returns .. => .returns { op := .getRawEnqueuePtr q thresh chan }
  | .broken _ | .fails _ => .throws (N.writer q)
  | .again _ | .growing .. | .waits _ => .goesOn

def outcome (N : Network ι κ) (k : KernelBase) (q : κ) (u : LocalState) : LocalAct → Outcome ι κ
  | .getRawDequeuePtr thresh _ =>
    if u.q.indequeue && decide (u.q.dequeuethresh < thresh) then .throws (N.reader q) else .goesOn
  | .dequeuePass =>
    match u.reader with
    | .loop thresh chan => N.dequeueOutcome q thresh chan (Queue.dequeuePass k u.q thresh chan)
    | _ => .goesOn
  | .dequeue count => if u.q.readshutdown then .throws (N.reader q) else .returns { op := .dequeue q count }
  | .getRawEnqueuePtr thresh _ =>
    if u.q.inenqueue && decide (u.q.enqueuethresh < thresh) then .throws (N.writer q) else .goesOn
  | .enqueuePass =>
    match u.writer with
    | .loop thresh chan grown => N.enqueueOutcome q thresh chan (Queue.enqueuePass k u.q thresh chan grown)
    | _ => .goesOn
  | .write p off b => .returns { op := .write q p.chan off b }
  | .enqueue count => if u.q.writeshutdown then .throws (N.writer q) else .returns { op := .enqueue q count }
  | .shutdownReader => .returns { op := .shutdownReader q }
  | .shutdownWriter => .returns { op := .shutdownWriter q }
  | .deadlock => .throws (N.reader q)
  | .readerWakes | .writerWakes | .grow .. | .detect | .spuriousWakeup _ => .goesOn

section Steps

variable [DecidableEq ι]

def settle (N : Network ι κ) (s : State ι κ) : Outcome ι κ → State ι κ
  | .goesOn => s
  | .returns e => { s with trace := Network.extend s.trace (N.owner e.op) e }
  | .throws i => { s with stopped := Function.update s.stopped i true }

theorem settle_cases (N : Network ι κ) (s : State ι κ) (o : Outcome ι κ) : (N.settle s o).queue = s.queue ∧
    ((N.settle s o).trace = s.trace ∧ (∀ e, o ≠ .returns e) ∨
      ∃ e, o = .returns e ∧ (N.settle s o).trace = extend s.trace (N.owner e.op) e) := by
  cases o with
  | goesOn => exact ⟨rfl, .inl ⟨rfl, fun e heq => by cases heq⟩⟩
  | throws i => exact ⟨rfl, .inl ⟨rfl, fun e heq => by cases heq⟩⟩
  | returns e => exact ⟨rfl, .inr ⟨e, rfl, rfl⟩⟩

variable [DecidableEq κ]

/-- The program of the node asks for the operation. -/
def Asks (N : Network ι κ) (s : State ι κ) (op : Op κ) : Prop :=
  s.stopped (N.owner op) = false ∧ N.program (N.owner op) (s.trace (N.owner op)) = some op

instance (N : Network ι κ) (s : State ι κ) (op : Op κ) : Decidable (N.Asks s op) :=
  inferInstanceAs (Decidable (_ ∧ _))

def next (N : Network ι κ) (k : KernelBase) (s : State ι κ) (a : Act κ) : Option (State ι κ) :=
  if ∀ op ∈ begins a.q a.act, N.Asks s op then
    (localNext k (s.queue a.q) a.act).map fun u =>
      N.settle { s with queue := Function.update s.queue a.q u } (N.outcome k a.q (s.queue a.q) a.act)
  else none

def machine (N : Network ι κ) (k : KernelBase) : Machine (State ι κ) (Act κ) where
  init s := (∀ q, ∃ length maxThreshold, s.queue q = localStart k length maxThreshold (N.channels q)) ∧
    (∀ i, s.trace i = []) ∧ ∀ i, s.stopped i = false
  next := N.next k

end Steps

end Network

/-- `Enqueue` passes on only what has been written, no read finds its bytes but a `maxThreshold` that is too small after the
shutdown of the writer, and none reads from a ring whose size has wrapped. -/
def Determined (u : LocalState) : LocalAct → Prop
  | .enqueue count => ∀ c < u.q.queue.numChannels, ∀ off < count, (u.written c off).isSome = true
  | .dequeuePass =>
    match u.reader with
    | .loop thresh _ =>
      u.q.Fits ∧ ¬ (u.q.writeshutdown = true ∧ u.q.queue.maxThreshold < thresh ∧ thresh ≤ u.q.queue.count)
    | .idle | .waiting .. => True
  | _ => True

instance : DecidableRel Determined
  | u, .enqueue count =>
    inferInstanceAs (Decidable (∀ c < u.q.queue.numChannels, ∀ off < count, (u.written c off).isSome = true))
  | u, .dequeuePass =>
    match hr : u.reader with
    | .loop thresh _ => decidable_of_iff
      (u.q.Fits ∧ ¬ (u.q.writeshutdown = true ∧ u.q.queue.maxThreshold < thresh ∧ thresh ≤ u.q.queue.count))
      (by simp [Determined, hr])
    | .idle | .waiting .. => isTrue (by simp [Determined, hr])
  | _, .getRawDequeuePtr .. | _, .readerWakes | _, .dequeue _ | _, .getRawEnqueuePtr .. | _, .enqueuePass
  | _, .writerWakes | _, .write .. | _, .grow .. | _, .shutdownReader | _, .shutdownWriter | _, .detect | _, .deadlock
  | _, .spuriousWakeup _ => isTrue trivial

/-- The call does not throw. -/
def Outcome.Fine : Outcome ι κ → Prop
  | .goesOn | .returns _ => True
  | .throws _ => False

instance : DecidablePred (Outcome.Fine (ι := ι) (κ := κ))
  | .goesOn | .returns _ => isTrue trivial
  | .throws _ => isFalse id

/-- No call throws, and what it does is determined. -/
def Careful (N : Network ι κ) (k : KernelBase) (s : State ι κ) (a : Act κ) : Prop :=
  (N.outcome k a.q (s.queue a.q) a.act).Fine ∧ Determined (s.queue a.q) a.act

instance (N : Network ι κ) (k : KernelBase) (s : State ι κ) (a : Act κ) : Decidable (Careful N k s a) :=
  inferInstanceAs (Decidable ((N.outcome k a.q (s.queue a.q) a.act).Fine ∧ Determined (s.queue a.q) a.act))

/-! ### What the operations do to a queue -/

section Books

variable {q : κ} {T : ι → List (Event κ)} {e : Event κ} {N : Network ι κ}

/-- The queue has got and lost what the operations say. -/
structure Books (u : LocalState) (d : Ledger) (n : Nat) : Prop where
  written : u.written = d.written
  stream : ∀ c < u.q.queue.numChannels, u.enqueued c = d.stream c
  closed : u.q.writeshutdown = d.closed
  dequeued : u.dequeued = n

variable [DecidableEq ι]

/-- Only the writer of a queue writes to its ledger. -/
theorem ledger_extend (q : κ) : ledger q (Network.extend T (N.owner e.op) e (N.writer q)) =
    (ledger q (T (N.writer q))).step q e := by
  unfold Network.extend
  by_cases heq : N.writer q = N.owner e.op
  · rw [heq, Function.update_self, ledger_concat]
  · rw [Function.update_of_ne heq]
    unfold Ledger.step
    cases hop : e.op with
    | getRawDequeuePtr q' thresh chan => rfl
    | dequeue q' count => rfl
    | getRawEnqueuePtr q' thresh chan => rfl
    | shutdownReader q' => rfl
    | write q' chan off b =>
      rw [hop] at heq
      refine (if_neg ?_).symm
      rintro rfl
      exact heq rfl
    | enqueue q' count =>
      rw [hop] at heq
      refine (if_neg ?_).symm
      rintro rfl
      exact heq rfl
    | shutdownWriter q' =>
      rw [hop] at heq
      refine (if_neg ?_).symm
      rintro rfl
      exact heq rfl

theorem consumed_extend (q : κ) : consumed q (Network.extend T (N.owner e.op) e (N.reader q)) =
    consumedStep q (consumed q (T (N.reader q))) e := by
  unfold Network.extend
  by_cases heq : N.reader q = N.owner e.op
  · rw [heq, Function.update_self, consumed_concat]
  · rw [Function.update_of_ne heq]
    unfold consumedStep
    cases hop : e.op with
    | dequeue q' count =>
      rw [hop] at heq
      refine (if_neg ?_).symm
      rintro rfl
      exact heq rfl
    | getRawDequeuePtr q' thresh chan => rfl
    | getRawEnqueuePtr q' thresh chan => rfl
    | write q' chan off b => rfl
    | enqueue q' count => rfl
    | shutdownReader q' => rfl
    | shutdownWriter q' => rfl

end Books

/-! ### What returns -/

section Returns

variable {ι κ : Type} {N : Network ι κ} {k : KernelBase} {q : κ} {u u' : LocalState} {l : LocalAct} {e : Event κ}

/-- An operation returns in the step that begins it, or at the end of a pass of its loop. -/
theorem returns_cases (h : N.outcome k q u l = .returns e) :
    (Network.begins q l = some e.op ∧ e.result = none ∧ e.op.blocking = false) ∨
    (∃ t c ptr q', l = .dequeuePass ∧ u.reader = .loop t c ∧ Queue.dequeuePass k u.q t c = .returns ptr q' ∧
      e = { op := .getRawDequeuePtr q t c, result := ptr.bind (loadChannels q' t c) }) ∨
    ∃ t c grown ptr q', l = .enqueuePass ∧ u.writer = .loop t c grown ∧
      Queue.enqueuePass k u.q t c grown = .returns ptr q' ∧ e = { op := .getRawEnqueuePtr q t c } := by
  have hbegins {op : Op κ} (hl : Network.begins q l = some op) (he : (.returns { op := op } : Outcome ι κ) = .returns e)
      (hblocking : op.blocking = false) :
      Network.begins q l = some e.op ∧ e.result = none ∧ e.op.blocking = false := by
    cases he
    exact ⟨hl, rfl, hblocking⟩
  cases l with
  | getRawDequeuePtr thresh chan =>
    rw [Network.outcome] at h
    -- the call of a blocking operation returns at the end of a pass, or throws
    split_ifs at h
  | getRawEnqueuePtr thresh chan =>
    rw [Network.outcome] at h
    split_ifs at h
  | dequeue count =>
    rw [Network.outcome] at h
    split_ifs at h
    exact .inl (hbegins rfl h rfl)
  | enqueue count =>
    rw [Network.outcome] at h
    split_ifs at h
    exact .inl (hbegins rfl h rfl)
  | write p off b => exact .inl (hbegins rfl h rfl)
  | shutdownReader => exact .inl (hbegins rfl h rfl)
  | shutdownWriter => exact .inl (hbegins rfl h rfl)
  | dequeuePass =>
    rw [Network.outcome] at h
    split at h
    · rename_i t c hr
      refine .inr (.inl ⟨t, c, ?_⟩)
      generalize hpass : Queue.dequeuePass k u.q t c = pass at h
      cases pass with
      | returns ptr q' =>
        cases h
        exact ⟨ptr, q', rfl, hr, rfl, rfl⟩
      | broken q' => cases h
      | again q' => cases h
      | growing q' len mt => cases h
      | waits q' => cases h
      | fails fault => cases h
    · cases h
  | enqueuePass =>
    rw [Network.outcome] at h
    split at h
    · rename_i t c grown hw
      refine .inr (.inr ⟨t, c, grown, ?_⟩)
      generalize hpass : Queue.enqueuePass k u.q t c grown = pass at h
      cases pass with
      | returns ptr q' =>
        cases h
        exact ⟨ptr, q', rfl, hw, rfl, rfl⟩
      | broken q' => cases h
      | again q' => cases h
      | growing q' len mt => cases h
      | waits q' => cases h
      | fails fault => cases h
    · cases h
  | readerWakes => cases h
  | writerWakes => cases h
  | grow len mt => cases h
  | detect => cases h
  | deadlock => cases h
  | spuriousWakeup t => cases h

/-- `Enqueue` and `Dequeue` throw when their end of the queue has been shut down. -/
theorem notBroken_of_fine (h : (N.outcome k q u l).Fine) : u.NotBroken l := by
  cases l with
  | enqueue count =>
    refine eq_false_of_ne_true fun hsd => ?_
    rw [Network.outcome, if_pos hsd] at h
    exact h
  | dequeue count =>
    refine eq_false_of_ne_true fun hsd => ?_
    rw [Network.outcome, if_pos hsd] at h
    exact h
  | _ => trivial

/-- A thread whose operation returns is outside afterwards. -/
theorem call_of_returns (hn : localNext k u l = some u') (he : N.outcome k q u l = .returns e) :
    (∀ q' t c, e.op = .getRawDequeuePtr q' t c → q' = q ∧ u'.reader.call = none) ∧
      ∀ q' t c, e.op = .getRawEnqueuePtr q' t c → q' = q ∧ u'.writer.call = none := by
  have hstep := LocalState.step_of_localNext hn
  obtain ⟨hbegins, hresult, hblocking⟩ | ⟨t, c, ptr, q', rfl, hr, hret, rfl⟩ | ⟨t, c, grown, ptr, q', rfl, hw, hret, rfl⟩ :=
    returns_cases he
  · constructor
    · intro q' t c hop
      rw [hop] at hblocking
      cases hblocking
    · intro q' t c hop
      rw [hop] at hblocking
      cases hblocking
  · constructor
    · intro q'' t' c' hop
      cases hop
      cases hstep with
      | dequeuePass hr' =>
        rw [hr] at hr'
        cases hr'
        rw [LocalState.dequeuePass, hret]
        cases ptr with
        | none => exact ⟨rfl, rfl⟩
        | some ptr => exact ⟨rfl, rfl⟩
    · intro q'' t' c' hop
      cases hop
  · constructor
    · intro q'' t' c' hop
      cases hop
    · intro q'' t' c' hop
      cases hop
      cases hstep with
      | enqueuePass hw' =>
        rw [hw] at hw'
        cases hw'
        obtain ⟨r, grown'⟩ := q'
        rw [LocalState.enqueuePass, hret]
        cases ptr with
        | none => exact ⟨rfl, rfl⟩
        | some ptr => exact ⟨rfl, rfl⟩

private theorem mapM_eq_some {α β : Type} {f : α → Option β} {g : α → β} {l : List α} (h : ∀ a ∈ l, f a = some (g a)) :
    l.mapM f = some (l.map g) := by
  induction l with
  | nil => rfl
  | cons a l ih =>
    rw [List.mapM_cons, h a List.mem_cons_self, ih fun b hb => h b (List.mem_cons_of_mem a hb)]
    rfl

/-- The pointer shows the next bytes of all channels. -/
theorem Sound.loadChannels_eq (h : Sound u) (hfits : u.q.Fits) {p : HeldPtr} (hp : p ∈ u.readerPtrs) :
    loadChannels u.q p.thresh p.chan p.ptr = some ((List.range (u.q.queue.numChannels - p.chan)).map fun c =>
      ((u.enqueued (p.chan + c)).drop u.dequeued).take p.thresh) := by
  obtain ⟨hin, hchan, hthresh, hptr⟩ := h.readerPtrs p hp
  have hcar := h.carries
  rw [QueueBase.outDequeue, if_pos hin] at hcar
  refine mapM_eq_some fun c hc => ?_
  have hlt : p.chan + c < u.q.queue.numChannels := by
    rw [List.mem_range] at hc
    omega
  refine Eq.trans ?_ (hcar.load_dequeuePtr hfits hthresh hlt)
  rw [hptr, ThresholdQueue.dequeuePtr, ThresholdQueue.dequeuePtr]
  congr 2
  ring

/-- A read returns the next bytes, and null only after the shutdown with too few bytes left. -/
theorem read_result (hu : Sound u) {t c : Nat} (hr : u.reader = .loop t c) (hdet : Determined u .dequeuePass)
    {d : Ledger} (hstream : ∀ c < u.q.queue.numChannels, u.enqueued c = d.stream c) {ptr : Option Ptr} {q' : ThresholdQueue}
    (hret : Queue.dequeuePass k u.q t c = .returns ptr q') :
    ptr.bind (loadChannels q' t c) = d.read u.q.queue.numChannels c u.dequeued t ∧
      (ptr.bind (loadChannels q' t c) = none → u.q.writeshutdown = true) := by
  have hat := hu.reader
  rw [hr] at hat
  have hchan : c < u.q.queue.numChannels := hat.1
  obtain ⟨hfits, hdet'⟩ : u.q.Fits ∧
      ¬ (u.q.writeshutdown = true ∧ u.q.queue.maxThreshold < t ∧ t ≤ u.q.queue.count) := by
    simpa only [Determined, hr] using hdet
  have hnext : LocalState.Step k u .dequeuePass (u.dequeuePass k t c) := .dequeuePass hr
  have hlen := hu.carries.holds.length_eq c hchan
  rw [LocalState.pending, List.length_drop] at hlen
  have ho := Queue.dequeuePass_outcome (q := u.q) (k := k) (c := c) hu.carries hat.2
  rw [hret] at ho
  generalize hp : Pass.returns ptr q' = p at ho
  cases ho with
  | broken => cases hp
  | waits => cases hp
  | grows len => exact absurd hp.symm (Queue.growPass_ne_returns u.q len t)
  | pointer havail =>
    cases hp
    have hsound' := hu.next (l := .dequeuePass) trivial hnext
    have hpass : u.dequeuePass k t c = { u with
        q := { u.q with indequeue := true }, reader := .idle, readerPtrs := ⟨c, t, u.q.dequeuePtr c⟩ :: u.readerPtrs } := by
      rw [LocalState.dequeuePass, hret]
      rfl
    rw [hpass] at hsound'
    have hload := Sound.loadChannels_eq hsound' hfits (p := ⟨c, t, u.q.dequeuePtr c⟩) List.mem_cons_self
    have hshown := hsound'.thresh_le_pending (p := ⟨c, t, u.q.dequeuePtr c⟩) List.mem_cons_self
    rw [LocalState.pending, List.length_drop] at hshown
    have hdeq := hu.dequeued_le c hchan
    have henough : u.dequeued + t ≤ (d.stream c).length := by
      rw [← hstream c hchan]
      dsimp only at hshown
      omega
    have hread : d.read u.q.queue.numChannels c u.dequeued t = some _ := if_pos henough
    rw [hread]
    refine ⟨hload.trans (congrArg some (List.map_congr_left fun j hj => ?_)), fun hnone => ?_⟩
    · rw [List.mem_range] at hj
      exact congrArg (fun l => (l.drop u.dequeued).take t) (hstream (c + j) (by dsimp only at hj; omega))
    · cases hload.symm.trans hnone
  -- the case of a threshold above `maxThreshold` is excluded, so too few bytes are left
  | null hstarved hw =>
    cases hp
    have hw : u.q.writeshutdown = true := hw
    have hshort : u.q.queue.count < t := by
      obtain hlt | hlt := hstarved.2
      · exact hlt
      · by_contra hnot
        exact hdet' ⟨hw, hlt, not_lt.1 hnot⟩
    refine ⟨(if_neg ?_).symm, fun _ => hw⟩
    rw [← hstream c hchan]
    have hle := hu.dequeued_le c hchan
    omega

end Returns

end ProcessNetwork.LocalNetwork
