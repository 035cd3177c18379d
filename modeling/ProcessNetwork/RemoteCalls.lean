import ProcessNetwork.Lib.Machine

/-!
# Calls that wait for a reply

`RemoteContextClient::RemoteCall` puts the address of a `WaiterInfo` on its own stack into the table `callwaiters`, and only
the dispatch of the reply takes it out.  A call that ends by an exception before its reply has been dispatched leaves its
address in the table, where the reply, or `InternalTerminate`, writes through it.

A `WaiterInfo` is the index of the call here, so that an address whose call has ended can still be told apart.
-/

namespace ProcessNetwork.RemoteContext

/-- Where an activation of `RemoteCall` is. -/
inductive CallPhase
  /-- In `SendMessage`, which may give up the lock while it sends. -/
  | sending
  /-- In `cond.Wait`. -/
  | waiting
  | returned
  | threw
deriving DecidableEq, Repr

def CallPhase.active : CallPhase → Bool
  | sending | waiting => true
  | returned | threw => false

/-- `WaiterInfo`, and where its call is. -/
structure WaiterInfo (R : Type) where
  waiterid : UInt32
  signaled : Bool := false
  msg : Option R := none
  phase : CallPhase := .sending

/-- What a `RemoteContextClient` keeps of its calls. -/
structure Calls (R : Type) where
  shutdown : Bool := false
  trancounter : UInt32 := 0
  callwaiters : UInt32 → Option Nat := fun _ => none
  /-- All calls that have been made. -/
  waiters : List (WaiterInfo R) := []

inductive CallAct (R : Type)
  /-- `RemoteCall`, up to `SendMessage`. -/
  | call
  /-- `SendMessage` returns in the call `i`. -/
  | sent (i : Nat)
  | sendFails (i : Nat)
  /-- The call `i` comes back from `cond.Wait`, signalled or not. -/
  | wake (i : Nat)
  /-- The dispatch of a reply. -/
  | reply (msgid : UInt32) (msg : R)
  /-- `Terminate` here, or the dispatch of the message of that name. -/
  | terminate

namespace Calls

variable {R : Type} {c d : Calls R} {a : CallAct R} {i j : Nat} {id : UInt32} {w : WaiterInfo R}

def setWaiter (i : Nat) (w : WaiterInfo R) (c : Calls R) : Calls R := { c with waiters := c.waiters.set i w }

/-- `AddWaiter`: the table keeps the entry that it has under the number. -/
def addWaiter (id : UInt32) (i : Nat) (c : Calls R) : Calls R :=
  if (c.callwaiters id).isSome then c else { c with callwaiters := Function.update c.callwaiters id (some i) }

def remoteCall (c : Calls R) : Calls R :=
  addWaiter (c.trancounter + 1) c.waiters.length
    { c with trancounter := c.trancounter + 1, waiters := c.waiters ++ [{ waiterid := c.trancounter + 1 }] }

/-- `DispatchMessage` for a reply: without an entry the assertion fails and nothing happens. -/
def dispatchReply (id : UInt32) (msg : R) (c : Calls R) : Calls R :=
  match c.callwaiters id with
  | none => c
  | some i => { c with
      callwaiters := Function.update c.callwaiters id none
      waiters := c.waiters.modify i fun w => { w with msg := some msg, signaled := true } }

/-- The loop of `RemoteCall` when `SendMessage` has returned: the shutdown is not looked at before the wait. -/
def afterSend (w : WaiterInfo R) : CallPhase := if w.signaled then .returned else .waiting

/-- The loop of `RemoteCall` after `cond.Wait`. -/
def afterWait (c : Calls R) (w : WaiterInfo R) : CallPhase := if c.shutdown then .threw else afterSend w

def next (c : Calls R) : CallAct R → Option (Calls R)
  -- the callers of `RemoteCall` have looked at `shutdown`, under the lock
  | .call => if c.shutdown then none else some c.remoteCall
  | .sent i => do
    let w ← c.waiters[i]?
    if w.phase = .sending then some (c.setWaiter i { w with phase := afterSend w }) else none
  | .sendFails i => do
    let w ← c.waiters[i]?
    if w.phase = .sending then some (c.setWaiter i { w with phase := .threw }) else none
  | .wake i => do
    let w ← c.waiters[i]?
    if w.phase = .waiting then some (c.setWaiter i { w with phase := c.afterWait w }) else none
  | .reply id msg => some (c.dispatchReply id msg)
  | .terminate => some { c with shutdown := true }

/-- The calls of a client. -/
def machine (R : Type) : Machine (Calls R) (CallAct R) where
  init c := c = {}
  next := next

/-! ### The table -/

/-- The call has neither returned nor thrown. -/
def Live (c : Calls R) (i : Nat) : Prop := ∃ w, c.waiters[i]? = some w ∧ w.phase.active = true

/-- Every entry of the table belongs to a call that has not ended. -/
def TableLive (c : Calls R) : Prop := ∀ id i, c.callwaiters id = some i → c.Live i

/-- The action writes to the `WaiterInfo` of the call `i`: `DispatchMessage` fills it in, `InternalTerminate` signals its
condition. -/
def Writes (c : Calls R) : CallAct R → Nat → Prop
  | .reply id _, i => c.callwaiters id = some i
  | .terminate, i => c.shutdown = false ∧ ∃ id, c.callwaiters id = some i
  | _, _ => False

/-- No call ends by an exception while the table has its entry: a call that comes back from its wait after the shutdown,
or whose message could not be sent, has had its reply. -/
def Clean (c : Calls R) : CallAct R → Prop
  | .wake i => c.shutdown = true → ∀ id, c.callwaiters id ≠ some i
  | .sendFails i => ∀ id, c.callwaiters id ≠ some i
  | _ => True

/-- An entry is the one of its call, which is under way and has had no reply. -/
def Entered (c : Calls R) : Prop := ∀ id i, c.callwaiters id = some i →
  ∃ w, c.waiters[i]? = some w ∧ w.waiterid = id ∧ w.signaled = false ∧ w.phase.active = true

private theorem Entered.tableLive (h : Entered c) : TableLive c := by
  intro id i hi
  obtain ⟨w, hw, -, -, hphase⟩ := h id i hi
  exact ⟨w, hw, hphase⟩

private theorem Entered.writes (h : Entered c) (hw : c.Writes a i) : c.Live i := by
  cases a with
  | reply id msg => exact h.tableLive id i hw
  | terminate =>
    obtain ⟨-, id, hi⟩ := hw
    exact h.tableLive id i hi
  | call | sent | sendFails | wake => exact hw.elim

theorem setWaiter_waiters (hi : c.waiters[i]? = some w) (w' : WaiterInfo R) (j : Nat) :
    (c.setWaiter i w').waiters[j]? = if i = j then some w' else c.waiters[j]? := by
  unfold setWaiter
  rw [List.getElem?_set]
  split_ifs with heq hlt
  · rfl
  · exact absurd (List.getElem?_eq_some_iff.1 hi).1 hlt
  · rfl

/-- A call that goes on keeps its entry, and one that ends must not have one. -/
theorem Entered.setWaiter (h : Entered c) (hi : c.waiters[i]? = some w) (phase : CallPhase) :
    Entered (c.setWaiter i { w with phase := phase }) ↔
      phase.active = true ∨ ∀ id, c.callwaiters id ≠ some i := by
  constructor
  · intro h'
    by_cases hentry : ∃ id, c.callwaiters id = some i
    · obtain ⟨id, hid⟩ := hentry
      obtain ⟨w', hw', -, -, hphase⟩ := h' id i hid
      rw [setWaiter_waiters hi, if_pos rfl] at hw'
      cases hw'
      exact .inl hphase
    · exact .inr fun id hid => hentry ⟨id, hid⟩
  · intro hok id j hj
    obtain ⟨w', hw', hid, hsignaled, hphase⟩ := h id j hj
    rw [setWaiter_waiters hi]
    by_cases heq : i = j
    · subst heq
      rw [if_pos rfl]
      rw [hi] at hw'
      cases hw'
      exact ⟨_, rfl, hid, hsignaled, hok.resolve_right fun hnone => hnone id hj⟩
    · rw [if_neg heq]
      exact ⟨w', hw', hid, hsignaled, hphase⟩

private theorem TableLive.setWaiter (hi : c.waiters[i]? = some w) {phase : CallPhase}
    (h : TableLive (c.setWaiter i { w with phase := phase })) :
    phase.active = true ∨ ∀ id, c.callwaiters id ≠ some i := by
  by_cases hentry : ∃ id, c.callwaiters id = some i
  · obtain ⟨id, hid⟩ := hentry
    obtain ⟨w', hw', hphase⟩ := h id i hid
    rw [setWaiter_waiters hi, if_pos rfl] at hw'
    cases hw'
    exact .inl hphase
  · exact .inr fun id hid => hentry ⟨id, hid⟩

theorem Entered.remoteCall (h : Entered c) : Entered c.remoteCall := by
  have hold {id : UInt32} {i : Nat} (hi : c.callwaiters id = some i) : ∃ w,
      (c.waiters ++ [{ waiterid := c.trancounter + 1 }])[i]? = some w ∧ w.waiterid = id ∧ w.signaled = false ∧
        w.phase.active = true := by
    obtain ⟨w, hw, hrest⟩ := h id i hi
    exact ⟨w, by rw [List.getElem?_append_left (List.getElem?_eq_some_iff.1 hw).1, hw], hrest⟩
  intro id i hi
  unfold Calls.remoteCall addWaiter at hi ⊢
  split_ifs at hi ⊢ with hsome
  · exact hold hi
  · dsimp only at hi ⊢
    by_cases heq : id = c.trancounter + 1
    · subst heq
      rw [Function.update_self] at hi
      cases hi
      exact ⟨_, List.getElem?_concat_length .., rfl, rfl, rfl⟩
    · rw [Function.update_of_ne heq] at hi
      exact hold hi

theorem Entered.dispatchReply (h : Entered c) (id : UInt32) (msg : R) : Entered (c.dispatchReply id msg) := by
  unfold Calls.dispatchReply
  cases hid : c.callwaiters id with
  | none => exact h
  | some i =>
    intro id' j hj
    dsimp only at hj ⊢
    by_cases heq : id' = id
    · subst heq
      rw [Function.update_self] at hj
      cases hj
    · rw [Function.update_of_ne heq] at hj
      obtain ⟨w, hw, hwid, hrest⟩ := h id' j hj
      -- the entry under the other number is the one of another call
      have hij : i ≠ j := by
        rintro rfl
        obtain ⟨w', hw', hwid', -⟩ := h id i hid
        rw [hw] at hw'
        cases hw'
        exact heq (hwid.symm.trans hwid')
      exact ⟨w, by simp [hij, hw], hwid, hrest⟩

/-- The call that finds its reply has no entry any more, and the one that does not goes on. -/
theorem Entered.afterSend (h : Entered c) (hi : c.waiters[i]? = some w) :
    (Calls.afterSend w).active = true ∨ ∀ id, c.callwaiters id ≠ some i := by
  unfold Calls.afterSend
  split_ifs with hsignaled
  · refine .inr fun id hid => ?_
    obtain ⟨w', hw', -, hnot, -⟩ := h id i hid
    rw [hi] at hw'
    cases hw'
    rw [hsignaled] at hnot
    cases hnot
  · exact .inl rfl

/-- A step of a client whose entries are those of calls under way keeps them so exactly when it is clean. -/
theorem Entered.next_iff (h : Entered c) (hd : c.next a = some d) :
    (Entered d ↔ c.Clean a) ∧ (TableLive d ↔ c.Clean a) := by
  have hboth {p : Prop} (hent : p → Entered d) (htab : TableLive d → p) : (Entered d ↔ p) ∧ (TableLive d ↔ p) :=
    ⟨⟨fun h => htab h.tableLive, hent⟩, htab, fun hp => (hent hp).tableLive⟩
  have hthrew : CallPhase.threw.active ≠ true := by decide
  cases a with
  | call =>
    rw [next] at hd
    split_ifs at hd
    cases hd
    exact hboth (fun _ => h.remoteCall) fun _ => trivial
  | sent i =>
    obtain ⟨w, hw, hd⟩ := Option.bind_eq_some_iff.1 hd
    split_ifs at hd
    cases hd
    exact hboth (fun _ => (h.setWaiter hw _).2 (h.afterSend hw)) fun _ => trivial
  | sendFails i =>
    obtain ⟨w, hw, hd⟩ := Option.bind_eq_some_iff.1 hd
    split_ifs at hd
    cases hd
    exact hboth (fun hclean => (h.setWaiter hw _).2 (.inr hclean)) fun htab => (htab.setWaiter hw).resolve_left hthrew
  | wake i =>
    obtain ⟨w, hw, hd⟩ := Option.bind_eq_some_iff.1 hd
    split_ifs at hd
    cases hd
    rcases Bool.eq_false_or_eq_true c.shutdown with hs | hs
    · have hphase : c.afterWait w = .threw := if_pos hs
      rw [hphase] at hboth ⊢
      exact hboth (fun hclean => (h.setWaiter hw _).2 (.inr (hclean hs))) fun htab _ =>
        (htab.setWaiter hw).resolve_left hthrew
    · have hphase : c.afterWait w = Calls.afterSend w := by
        rw [afterWait, hs]
        rfl
      rw [hphase] at hboth ⊢
      refine hboth (fun _ => (h.setWaiter hw _).2 (h.afterSend hw)) fun _ hshutdown => ?_
      rw [hs] at hshutdown
      cases hshutdown
  | reply id msg =>
    cases hd
    exact hboth (fun _ => h.dispatchReply id msg) fun _ => trivial
  | terminate =>
    cases hd
    exact hboth (fun _ => h) fun _ => trivial

/-- Along clean steps every entry of the table belongs to a call under way, so that nothing is written to a call that has
ended; and the first step that is not clean leaves an entry of a call that has ended. -/
theorem callwaiters_live_iff (h : (machine R).ReachableBy Clean c) : TableLive c ∧ (∀ a i, c.Writes a i → c.Live i) ∧
    ∀ a d, c.next a = some d → (TableLive d ↔ c.Clean a) := by
  have hent : Entered c := by
    refine h.invariant (fun c hc => ?_) fun c a d hent hclean hd => ((hent.next_iff hd).1).2 hclean
    rw [hc]
    exact fun id i hi => by cases hi
  exact ⟨hent.tableLive, fun a i hw => hent.writes hw, fun a d hd => (hent.next_iff hd).2⟩

/-- The client after its first call has had its reply and returned, and the context has been terminated while the second one
waits. -/
def answered : Calls Unit where
  shutdown := true
  trancounter := 2
  callwaiters := Function.update (Function.update (Function.update (fun _ => none) 1 (some 0)) 1 none) 2 (some 1)
  waiters := [{ waiterid := 1, signaled := true, msg := some (), phase := .returned }, { waiterid := 2, phase := .waiting }]

/-- The second call is under way, and leaves its entry behind when it wakes up. -/
theorem callwaiters_live_iff_call :
    TableLive answered ∧ answered.Live 1 ∧ ∀ d, answered.next (.wake 1) = some d → ¬ TableLive d := by
  have hwaits : (machine Unit).ReachableBy Clean _ := .step (l := .sent 0) (.step (l := .call) (.init rfl) trivial rfl)
    trivial rfl
  have hreply : (machine Unit).ReachableBy Clean _ := .step (l := .reply 1 ()) hwaits trivial rfl
  have hsecond : (machine Unit).ReachableBy Clean _ := .step (l := .sent 1) (.step (l := .call) hreply trivial rfl)
    trivial rfl
  have hreturns : (machine Unit).ReachableBy Clean _ := .step (l := .wake 0) hsecond
    (fun hshutdown => by cases hshutdown) rfl
  have hterminated : (machine Unit).ReachableBy Clean answered := .step (l := .terminate) hreturns trivial rfl
  obtain ⟨hlive, hwrites, hnext⟩ := callwaiters_live_iff hterminated
  exact ⟨hlive, hwrites (.reply 2 ()) 1 rfl, fun d hd htable => (hnext (.wake 1) d hd).1 htable rfl 2 rfl⟩

/-- The client after its only call has thrown, with the reply still to come. -/
def late : Calls Unit where
  shutdown := true
  trancounter := 1
  callwaiters := Function.update (fun _ => none) 1 (some 0)
  waiters := [{ waiterid := 1, phase := .threw }]

/-- A call waits when the context is terminated, and wakes up before its reply comes: the reply is written to the call
that has thrown. -/
theorem reply_after_throw : (machine Unit).Reachable late ∧ ¬ TableLive late ∧
    late.Writes (.reply 1 ()) 0 ∧ ¬ late.Live 0 := by
  have hrun : (machine Unit).runBy (fun _ _ => True) {} [.call, .sent 0, .terminate, .wake 0] = some late := rfl
  have hended : ¬ late.Live 0 := by
    rintro ⟨w, hw, hphase⟩
    cases hw
    cases hphase
  exact ⟨.of_runBy (.init rfl) hrun, fun h => hended (h 1 0 rfl), rfl, hended⟩

end Calls

end ProcessNetwork.RemoteContext
