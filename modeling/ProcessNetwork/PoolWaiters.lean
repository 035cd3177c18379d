import ProcessNetwork.PoolTasks

/-!
# The threads in `Wait` and `Shutdown`

`dequeue_cond.Signal` wakes one thread, however many sleep in `Wait` and `Shutdown`.  A worker that finishes a task
signals once, so when the last task is finished while two threads sleep, one of them sleeps on with nothing left to wait
for; only the workers that end later can still wake it.  They end after a timeout, as long as there are more of them than
`minthreads`.  So the last signal is that of the last task, or that of the last worker that may end (`Releases`).
-/

namespace ProcessNetwork

namespace PoolState

variable {s s' : PoolState} {i : Nat} {a : PoolAct} {done dies : Option Caller} {wakes : Option Nat} {timedout : Bool}
  {usec : Fin 1000000}

/-- The section of worker `i` that comes next ends the worker. -/
def dying (s : PoolState) (i : Nat) : Bool :=
  s.taskqueue.isEmpty &&
    match s.workers[i]? with
    | some (.waiting timedout) => s.dies timedout
    | _ => s.dies false

/-- What the section of worker `i` that comes next leaves of `numtasks`. -/
def tasksLeft (s : PoolState) (i : Nat) : Nat :=
  if (s.workers[i]?.bind WorkerPc.hasRun).isSome then s.numtasks - 1 else s.numtasks

/-- What the section of worker `i` that comes next leaves of `numthreads`. -/
def threadsLeft (s : PoolState) (i : Nat) : Nat := if s.dying i then s.numthreads - 1 else s.numthreads

/-- So many workers stay: there is no timeout, or the pool keeps them. -/
def Kept (s : PoolState) (numthreads : Nat) : Prop := s.timed = true → numthreads ≤ s.minthreads

instance (s : PoolState) (n : Nat) : Decidable (s.Kept n) := inferInstanceAs (Decidable (_ → _))

/-- A worker that goes to sleep gets a valid time to wake up at; and at most one thread sleeps on `dequeue_cond` before a
section of a worker that leaves no task and only workers that stay. -/
def Releases (s : PoolState) : PoolAct → Prop
  | .taskThread i _ _ _ usec =>
    (s.taskqueue = [] → s.dying i = false → s.timeout.throws usec = false) ∧
    (s.tasksLeft i = 0 → s.Kept (s.threadsLeft i) → s.dequeueCond.asleep.length ≤ 1)
  | _ => True

instance : DecidableRel Releases := fun s a => by
  cases a <;> unfold Releases <;> infer_instance

/-- The step is one of a worker, and not a timeout after which the worker waits again. -/
def Works (s : PoolState) : PoolAct → Prop
  | .taskThread .. | .run _ | .exits _ => True
  | .timeout _ => s.minthreads < s.numthreads
  | _ => False

/-- No worker can take a step; a worker that the pool keeps may still time out and wait again. -/
def Quiescent (s : PoolState) : Prop := ∀ a, s.Works a → poolNext s a = none

/-! ### Sleeping on `dequeue_cond` -/

/-- What a section does to the counters and to the threads asleep on `dequeue_cond`. -/
structure Signals (s s' : PoolState) (signals : Bool) (numtasks numthreads : Nat) : Prop where
  timed : s'.timed = s.timed
  minthreads : s'.minthreads = s.minthreads
  numtasks : s'.numtasks = numtasks
  numthreads : s'.numthreads = numthreads
  asleep : signals = false → s'.dequeueCond.asleep = s.dequeueCond.asleep
  length : signals = true → s'.dequeueCond.asleep.length ≤ s.dequeueCond.asleep.length - 1

private theorem signals_waitEnqueue (s : PoolState) (i : Nat) (usec : Fin 1000000) :
    Signals s (s.waitEnqueue i usec) false s.numtasks s.numthreads := by
  unfold waitEnqueue
  split_ifs <;> exact ⟨rfl, rfl, rfl, rfl, fun _ => rfl, nofun⟩

private theorem signals_emptyLoop (hs : s.emptyLoop i timedout dies wakes usec = some s') :
    Signals s s' (s.taskqueue.isEmpty && s.dies timedout) s.numtasks
      (if s.taskqueue.isEmpty && s.dies timedout then s.numthreads - 1 else s.numthreads) := by
  unfold emptyLoop at hs
  split at hs
  · rename_i hq
    cases hs
    rw [hq]
    exact ⟨rfl, rfl, rfl, rfl, fun _ => rfl, nofun⟩
  · rename_i hq
    rw [hq, List.isEmpty_nil, Bool.true_and]
    split_ifs at hs with hdies
    · obtain ⟨t, ht, hs⟩ := Option.bind_eq_some_iff.1 hs
      obtain ⟨c, -, rfl⟩ := Option.map_eq_some_iff.1 ht
      obtain ⟨d, hd, rfl⟩ := Option.map_eq_some_iff.1 hs
      rw [hdies]
      exact ⟨rfl, rfl, rfl, rfl, nofun, fun _ => (Condition.length_asleep_of_signal hd).le⟩
    · cases hs
      obtain ⟨threads, needscleanup, heq⟩ := s.exists_internalCleanup_eq
      rw [heq, eq_false_of_ne_true hdies]
      have hw := signals_waitEnqueue
        { s with threads := threads, needscleanup := needscleanup, waiting := s.waiting + 1 } i usec
      exact ⟨hw.timed, hw.minthreads, hw.numtasks, hw.numthreads, hw.asleep, nofun⟩

private theorem signals_taskThread (hs : s.taskThread i done dies wakes usec = some s') :
    Signals s s' ((s.workers[i]?.bind WorkerPc.hasRun).isSome || s.dying i) (s.tasksLeft i) (s.threadsLeft i) := by
  unfold taskThread at hs
  unfold threadsLeft tasksLeft dying
  split at hs
  · rename_i hpc
    rw [hpc]
    exact signals_emptyLoop hs
  · rename_i hpc
    rw [hpc]
    obtain ⟨c, -, hs⟩ := Option.bind_eq_some_iff.1 hs
    have h := signals_emptyLoop hs
    exact ⟨h.timed, h.minthreads, h.numtasks, h.numthreads, h.asleep, h.length⟩
  · rename_i r hpc
    rw [hpc]
    obtain ⟨t, ht, hs⟩ := Option.bind_eq_some_iff.1 hs
    obtain ⟨c, hc, rfl⟩ := Option.map_eq_some_iff.1 ht
    have hlen : c.asleep.length = s.dequeueCond.asleep.length - 1 := Condition.length_asleep_of_signal hc
    have h := signals_emptyLoop hs
    refine ⟨h.timed, h.minthreads, h.numtasks, h.numthreads, nofun, fun _ => ?_⟩
    -- the end of the worker, if it is one, may wake another thread
    cases hd : (s.finish i r).taskqueue.isEmpty && (s.finish i r).dies false with
    | false => rw [h.asleep hd, ← hlen]
    | true =>
      have := h.length hd
      exact this.trans (by dsimp only; omega)
  · cases hs

/-- No thread sleeps on `dequeue_cond` any more, when nothing will signal it. -/
def Released (s : PoolState) : Prop := s.numtasks = 0 → s.Kept s.numthreads → s.dequeueCond.asleep = []

private theorem Released.of_eq (h : Released s) (h1 : s'.timed = s.timed) (h2 : s'.minthreads = s.minthreads)
    (h3 : s.numtasks ≤ s'.numtasks) (h4 : s.numthreads ≤ s'.numthreads)
    (h5 : s'.dequeueCond.asleep = s.dequeueCond.asleep) : Released s' := by
  intro hn hk
  rw [h5]
  refine h (by omega) fun ht => ?_
  have := hk (h1.trans ht)
  omega

private theorem Released.internalCleanup (h : Released s) : Released s.internalCleanup := by
  obtain ⟨threads, needscleanup, heq⟩ := s.exists_internalCleanup_eq
  rw [heq]
  exact h

private theorem Released.spawn (h : Released s) : Released s.spawn := by
  unfold PoolState.spawn
  split_ifs
  · exact h
  · exact h.of_eq rfl rfl (Nat.le_refl _) (Nat.le_succ _) rfl

private theorem Released.signalEnqueue (h : Released s) (hs : s.signalEnqueue wakes = some s') : Released s' := by
  obtain ⟨c, -, rfl⟩ := Option.map_eq_some_iff.1 hs
  exact h

private theorem Released.execute (h : Released s) {r : Runnable} (hs : s.execute r wakes = some s') : Released s' := by
  unfold PoolState.execute at hs
  split_ifs at hs with hsd
  · cases hs
    exact h
  · have hq : Released { s with
        taskqueue := s.taskqueue ++ [r], numtasks := s.numtasks + 1, accepted := s.accepted ++ [r] } :=
      h.of_eq rfl rfl (Nat.le_succ _) (Nat.le_refl _) rfl
    have hclean := hq.internalCleanup
    dsimp only at hs
    split_ifs at hs
    · exact hclean.spawn.signalEnqueue hs
    · exact hclean.signalEnqueue hs

/-- A thread goes to sleep only while there are tasks. -/
theorem released_of_busy (hb : s.busy = true) (h : s'.numtasks = s.numtasks) : Released s' := by
  rw [busy, Bool.and_eq_true, decide_eq_true_eq] at hb
  exact fun h0 => absurd (h ▸ h0) hb.1

private theorem Released.waitLoop (h : Released s) : Released (s.waitLoop i) := by
  unfold PoolState.waitLoop
  split_ifs with hb
  · exact released_of_busy hb rfl
  · exact h

private theorem Released.shutdownLoop (s : PoolState) : Released s.shutdownLoop := by
  unfold PoolState.shutdownLoop
  split_ifs with hb
  · exact released_of_busy hb rfl
  · exact fun _ _ => rfl

/-- A section of a worker releases the thread asleep, or it does not change what is counted. -/
theorem Released.taskThread (h : Released s) (hok : s.Releases (.taskThread i done dies wakes usec))
    (hs : s.taskThread i done dies wakes usec = some s') : Released s' := by
  have hsig := signals_taskThread hs
  intro hn hk
  rw [hsig.numtasks] at hn
  rw [hsig.numthreads] at hk
  have hk : s.Kept (s.threadsLeft i) := fun ht => (hk (hsig.timed.trans ht)).trans hsig.minthreads.le
  cases hb : (s.workers[i]?.bind WorkerPc.hasRun).isSome || s.dying i with
  | true =>
    have hlen := hok.2 hn hk
    have := hsig.length hb
    exact List.length_eq_zero_iff.1 (by omega)
  | false =>
    rw [Bool.or_eq_false_iff] at hb
    rw [hsig.asleep (Bool.or_eq_false_iff.2 hb)]
    rw [tasksLeft, hb.1] at hn
    rw [threadsLeft, hb.2] at hk
    exact h hn hk

private theorem Released.step (h : Released s) (hok : s.Releases a) (hs : s.step a = some s') : Released s' := by
  cases a with
  | execute r wakes => exact h.execute hs
  | wait i =>
    simp only [PoolState.step] at hs
    split_ifs at hs <;> cases hs
    · exact h
    · exact h.waitLoop
  | shutdown =>
    obtain ⟨-, ⟨⟩⟩ := Option.ite_none_right_eq_some.1 hs
    exact .shutdownLoop s
  | wakes c =>
    cases c with
    | client i =>
      obtain ⟨c, hc, rfl⟩ := Option.map_eq_some_iff.1 hs
      refine Released.waitLoop ?_
      exact h.of_eq rfl rfl (Nat.le_refl _) (Nat.le_refl _) (Condition.asleep_of_wake hc)
    | closer =>
      obtain ⟨-, hs⟩ := Option.ite_none_right_eq_some.1 hs
      obtain ⟨c, -, rfl⟩ := Option.map_eq_some_iff.1 hs
      exact .shutdownLoop _
  | join =>
    have hs : s.join = some s' := hs
    unfold PoolState.join at hs
    split at hs
    · obtain ⟨-, ⟨⟩⟩ := Option.ite_none_right_eq_some.1 hs
      -- a join or a task left over leaves the conditions alone
      exact h
    · cases hs
      exact h
    · cases hs
  | runLeftover =>
    have hs : s.runLeftover = some s' := hs
    unfold PoolState.runLeftover at hs
    split at hs
    · cases hs
      exact h
    · cases hs
      exact h
    · cases hs
  | taskThread i done dies wakes usec => exact h.taskThread hok hs
  | timeout i =>
    have hs : s.timesOut i = some s' := hs
    unfold PoolState.timesOut at hs
    split at hs
    · obtain ⟨-, hs⟩ := Option.ite_none_right_eq_some.1 hs
      exact Released.signalEnqueue (s := s.setWorker i (.waiting true)) h hs
    · cases hs
  | run i =>
    simp only [PoolState.step] at hs
    split at hs
    · cases hs
      exact h
    · cases hs
  | exits i =>
    obtain ⟨-, ⟨⟩⟩ := Option.ite_none_right_eq_some.1 hs
    exact h

/-! ### The program goes on -/

theorem terminated_waitEnqueue (ht : s.timeout.throws usec = false) : (s.waitEnqueue i usec).terminated = s.terminated := by
  rw [waitEnqueue, if_neg (by simp [ht])]
  rfl

private theorem terminated_emptyLoop (ht : s.taskqueue = [] → s.dies timedout = false → s.timeout.throws usec = false)
    (hs : s.emptyLoop i timedout dies wakes usec = some s') : s'.terminated = s.terminated := by
  unfold emptyLoop at hs
  split at hs
  · cases hs
    rfl
  · rename_i hq
    split_ifs at hs with hdies
    · obtain ⟨t, ht, hs⟩ := Option.bind_eq_some_iff.1 hs
      obtain ⟨c, -, rfl⟩ := Option.map_eq_some_iff.1 ht
      obtain ⟨d, -, rfl⟩ := Option.map_eq_some_iff.1 hs
      rfl
    · cases hs
      obtain ⟨threads, needscleanup, heq⟩ := s.exists_internalCleanup_eq
      rw [heq]
      exact terminated_waitEnqueue (ht hq (eq_false_of_ne_true hdies))

private theorem terminated_taskThread (hok : s.Releases (.taskThread i done dies wakes usec))
    (hs : s.taskThread i done dies wakes usec = some s') : s'.terminated = s.terminated := by
  have hok := hok.1
  unfold dying at hok
  unfold taskThread at hs
  split at hs
  · rename_i hpc
    rw [hpc] at hok
    exact terminated_emptyLoop (fun hq hd => hok hq (by rw [hq]; exact hd)) hs
  · rename_i hpc
    rw [hpc] at hok
    obtain ⟨c, -, hs⟩ := Option.bind_eq_some_iff.1 hs
    refine (terminated_emptyLoop (fun hq hd => ?_) hs).trans rfl
    have hq : s.taskqueue = [] := hq
    exact hok hq (by rw [hq]; exact hd)
  · rename_i hpc
    rw [hpc] at hok
    obtain ⟨t, ht, hs⟩ := Option.bind_eq_some_iff.1 hs
    obtain ⟨c, -, rfl⟩ := Option.map_eq_some_iff.1 ht
    refine (terminated_emptyLoop (fun hq hd => ?_) hs).trans rfl
    have hq : s.taskqueue = [] := hq
    exact hok hq (by rw [hq]; exact hd)
  · cases hs

/-- Only a worker ends the program. -/
theorem terminated_step (hok : s.Releases a) (hs : s.step a = some s') : s'.terminated = s.terminated := by
  cases a with
  | execute r wakes =>
    have hs : s.execute r wakes = some s' := hs
    unfold execute at hs
    split_ifs at hs
    · cases hs
      rfl
    · obtain ⟨threads, needscleanup, heq⟩ := exists_internalCleanup_eq
        { s with taskqueue := s.taskqueue ++ [r], numtasks := s.numtasks + 1, accepted := s.accepted ++ [r] }
      obtain ⟨c, -, rfl⟩ := Option.map_eq_some_iff.1 hs
      rw [heq]
      dsimp only
      unfold spawn
      split_ifs <;> rfl
  | wait i =>
    simp only [PoolState.step] at hs
    split_ifs at hs <;> cases hs
    · rfl
    · unfold waitLoop
      split_ifs <;> rfl
  | shutdown =>
    obtain ⟨-, ⟨⟩⟩ := Option.ite_none_right_eq_some.1 hs
    unfold shutdownLoop
    split_ifs <;> rfl
  | wakes c =>
    cases c with
    | client i =>
      obtain ⟨c, -, rfl⟩ := Option.map_eq_some_iff.1 hs
      unfold waitLoop
      split_ifs <;> rfl
    | closer =>
      obtain ⟨-, hs⟩ := Option.ite_none_right_eq_some.1 hs
      obtain ⟨c, -, rfl⟩ := Option.map_eq_some_iff.1 hs
      unfold shutdownLoop
      split_ifs <;> rfl
  | join =>
    have hs : s.join = some s' := hs
    unfold join at hs
    split at hs
    · obtain ⟨-, ⟨⟩⟩ := Option.ite_none_right_eq_some.1 hs
      rfl
    · cases hs
      rfl
    · cases hs
  | runLeftover =>
    have hs : s.runLeftover = some s' := hs
    unfold runLeftover at hs
    split at hs <;> cases hs <;> rfl
  -- a timed wait for a time that is not valid ends the program; the condition excludes it
  | taskThread i done dies wakes usec => exact terminated_taskThread hok hs
  | timeout i =>
    have hs : s.timesOut i = some s' := hs
    unfold timesOut at hs
    split at hs
    · obtain ⟨-, hs⟩ := Option.ite_none_right_eq_some.1 hs
      obtain ⟨c, -, rfl⟩ := Option.map_eq_some_iff.1 hs
      rfl
    · cases hs
  | run i =>
    simp only [PoolState.step] at hs
    split at hs <;> cases hs
    rfl
  | exits i =>
    obtain ⟨-, ⟨⟩⟩ := Option.ite_none_right_eq_some.1 hs
    rfl

/-! ### Workers that can take a step -/

/-- A worker in `enqueue_cond.Wait` is at the condition variable. -/
def Waits (s : PoolState) : Prop := ∀ j timedout, s.workers[j]? = some (.waiting timedout) → s.enqueueCond.Has j

/-- The same of all workers but one. -/
def WaitsBut (s : PoolState) (i : Nat) : Prop :=
  ∀ j timedout, j ≠ i → s.workers[j]? = some (.waiting timedout) → s.enqueueCond.Has j

private theorem Waits.but (h : Waits s) : WaitsBut s i := fun j t _ hj => h j t hj

private theorem Waits.signalEnqueue (h : Waits s) (hs : s.signalEnqueue wakes = some s') : Waits s' := by
  obtain ⟨c, hc, rfl⟩ := Option.map_eq_some_iff.1 hs
  exact fun j t hj => (h j t hj).signal hc

private theorem Waits.signalDequeue (h : Waits s) (hs : s.signalDequeue done = some s') : Waits s' := by
  obtain ⟨c, -, rfl⟩ := Option.map_eq_some_iff.1 hs
  exact h

private theorem WaitsBut.setWorker (h : WaitsBut s i) {pc : WorkerPc} (hpc : ∀ t, pc = .waiting t → s.enqueueCond.Has i) :
    Waits (s.setWorker i pc) := by
  intro j t hj
  have hj : (s.workers.set i pc)[j]? = some (.waiting t) := hj
  by_cases hij : i = j
  · subst hij
    rw [List.getElem?_set_self (by simpa using (List.getElem?_eq_some_iff.1 hj).1)] at hj
    exact hpc t (Option.some.inj hj)
  · rw [List.getElem?_set_ne hij] at hj
    exact h j t (Ne.symm hij) hj

private theorem Waits.internalCleanup (h : Waits s) : Waits s.internalCleanup := by
  obtain ⟨threads, needscleanup, heq⟩ := s.exists_internalCleanup_eq
  rw [heq]
  exact h

private theorem Waits.spawn (h : Waits s) : Waits s.spawn := by
  unfold PoolState.spawn
  split_ifs
  · exact h
  · intro j t hj
    have hj : (s.workers ++ [.starting])[j]? = some (.waiting t) := hj
    by_cases hlt : j < s.workers.length
    · rw [List.getElem?_append_left hlt] at hj
      exact h j t hj
    · rw [List.getElem?_append_right (by omega), List.getElem?_singleton] at hj
      split_ifs at hj
      cases hj

private theorem Waits.execute (h : Waits s) {r : Runnable} (hs : s.execute r wakes = some s') : Waits s' := by
  unfold PoolState.execute at hs
  split_ifs at hs
  · cases hs
    exact h
  · have hq : Waits { s with
      taskqueue := s.taskqueue ++ [r], numtasks := s.numtasks + 1, accepted := s.accepted ++ [r] } := h
    have hclean := hq.internalCleanup
    dsimp only at hs
    split_ifs at hs
    · exact hclean.spawn.signalEnqueue hs
    · exact hclean.signalEnqueue hs

private theorem WaitsBut.waitEnqueue (h : WaitsBut s i) (ht : (s.waitEnqueue i usec).terminated = false) :
    Waits (s.waitEnqueue i usec) := by
  unfold PoolState.waitEnqueue at ht ⊢
  split_ifs at ht ⊢
  have hwait : WaitsBut { s with enqueueCond := s.enqueueCond.wait i } i := fun j t hij hj => (h j t hij hj).wait
  exact hwait.setWorker fun _ _ => .inl List.mem_cons_self

private theorem WaitsBut.emptyLoop (h : WaitsBut s i) (hs : s.emptyLoop i timedout dies wakes usec = some s')
    (ht : s'.terminated = false) : Waits s' := by
  unfold PoolState.emptyLoop at hs
  split at hs
  · rename_i r rest _
    cases hs
    have hset : Waits (s.setWorker i (.running r)) := h.setWorker fun t ht => by cases ht
    exact hset
  · split_ifs at hs
    · have hset : Waits (s.setWorker i .exited) := h.setWorker fun t ht => by cases ht
      obtain ⟨u, hu, hs⟩ := Option.bind_eq_some_iff.1 hs
      have hu := Waits.signalEnqueue
        (s := { s.setWorker i .exited with numthreads := s.numthreads - 1, needscleanup := true }) hset hu
      exact hu.signalDequeue hs
    · obtain ⟨threads, needscleanup, heq⟩ := s.exists_internalCleanup_eq
      rw [heq] at hs
      cases hs
      exact WaitsBut.waitEnqueue
        (s := { s with threads := threads, needscleanup := needscleanup, waiting := s.waiting + 1 }) h ht

private theorem Waits.taskThread (h : Waits s) (hs : s.taskThread i done dies wakes usec = some s')
    (ht : s'.terminated = false) : Waits s' := by
  unfold PoolState.taskThread at hs
  split at hs
  · exact h.but.emptyLoop hs ht
  · obtain ⟨c, hc, hs⟩ := Option.bind_eq_some_iff.1 hs
    have hwake : WaitsBut { s with enqueueCond := c, waiting := s.waiting - 1 } i :=
      fun j t hij hj => (h j t hj).wake hij hc
    exact hwake.emptyLoop hs ht
  · rename_i r _
    obtain ⟨u, hu, hs⟩ := Option.bind_eq_some_iff.1 hs
    have hset : Waits (s.setWorker i .starting) := h.but.setWorker fun t ht => by cases ht
    have hu := Waits.signalDequeue (s := s.finish i r) hset hu
    exact hu.but.emptyLoop hs ht
  · cases hs

private theorem Waits.timesOut (h : Waits s) (hs : s.timesOut i = some s') : Waits s' := by
  unfold PoolState.timesOut at hs
  split at hs
  · obtain ⟨⟨-, hi⟩, hs⟩ := Option.ite_none_right_eq_some.1 hs
    have hset : Waits (s.setWorker i (.waiting true)) := h.but.setWorker fun _ _ => .inl hi
    exact hset.signalEnqueue hs
  · cases hs

private theorem Waits.waitLoop (h : Waits s) : Waits (s.waitLoop i) := by
  unfold PoolState.waitLoop
  split_ifs <;> exact h

private theorem Waits.shutdownLoop (h : Waits s) : Waits s.shutdownLoop := by
  unfold PoolState.shutdownLoop
  split_ifs
  · exact h
  · exact fun j t hj => (h j t hj).broadcast

private theorem Waits.step (h : Waits s) (hs : s.step a = some s') (ht : s'.terminated = false) : Waits s' := by
  cases a with
  | execute r wakes => exact h.execute hs
  | wait i =>
    simp only [PoolState.step] at hs
    split_ifs at hs <;> cases hs
    · exact h
    · exact h.waitLoop
  | shutdown =>
    obtain ⟨-, ⟨⟩⟩ := Option.ite_none_right_eq_some.1 hs
    exact h.shutdownLoop
  | wakes c =>
    cases c with
    | client i =>
      obtain ⟨c, -, rfl⟩ := Option.map_eq_some_iff.1 hs
      exact Waits.waitLoop (s := { s with dequeueCond := c }) h
    | closer =>
      obtain ⟨-, hs⟩ := Option.ite_none_right_eq_some.1 hs
      obtain ⟨c, -, rfl⟩ := Option.map_eq_some_iff.1 hs
      exact Waits.shutdownLoop (s := { s with dequeueCond := c }) h
  | join =>
    have hs : s.join = some s' := hs
    unfold PoolState.join at hs
    split at hs
    · obtain ⟨-, ⟨⟩⟩ := Option.ite_none_right_eq_some.1 hs
      exact h
    · cases hs
      exact h
    · cases hs
  | runLeftover =>
    have hs : s.runLeftover = some s' := hs
    unfold PoolState.runLeftover at hs
    split at hs
    · cases hs
      exact h
    · cases hs
      exact h
    · cases hs
  | taskThread i done dies wakes usec => exact h.taskThread hs ht
  | timeout i => exact h.timesOut hs
  | run i =>
    simp only [PoolState.step] at hs
    split at hs
    · rename_i r _
      cases hs
      -- the worker has run its task and goes on
      have hset : Waits (s.setWorker i (.ran r)) := h.but.setWorker fun t ht => by cases ht
      exact hset
    · cases hs
  | exits i =>
    obtain ⟨-, ⟨⟩⟩ := Option.ite_none_right_eq_some.1 hs
    exact h.but.setWorker fun t ht => by cases ht

private theorem exists_signalEnqueue (s : PoolState) : ∃ wakes s', s.signalEnqueue wakes = some s' := by
  obtain ⟨wakes, c, hc⟩ := s.enqueueCond.exists_signal
  exact ⟨wakes, _, congrArg (Option.map _) hc⟩

private theorem exists_signalDequeue (s : PoolState) : ∃ done s', s.signalDequeue done = some s' := by
  obtain ⟨done, c, hc⟩ := s.dequeueCond.exists_signal
  exact ⟨done, _, congrArg (Option.map _) hc⟩

private theorem exists_emptyLoop (s : PoolState) (i : Nat) (timedout : Bool) :
    ∃ dies wakes s', s.emptyLoop i timedout dies wakes 0 = some s' := by
  unfold emptyLoop
  cases s.taskqueue with
  | cons r rest => exact ⟨none, none, _, rfl⟩
  | nil =>
    dsimp only
    split_ifs
    · obtain ⟨wakes, t, ht⟩ := exists_signalEnqueue
        { s.setWorker i .exited with numthreads := s.numthreads - 1, needscleanup := true }
      obtain ⟨dies, u, hu⟩ := t.exists_signalDequeue
      refine ⟨dies, wakes, u, Option.bind_eq_some_iff.2 ⟨t, ht, hu⟩⟩
    · exact ⟨none, none, _, rfl⟩

/-- In a pool with a timeout and more workers than it keeps, a live worker can take a step. -/
theorem exists_step_of_live (h : Waits s) (ht : s.timed = true) (hn : s.minthreads < s.numthreads) {pc : WorkerPc}
    (hpc : s.workers[i]? = some pc) (hlive : pc.live = true) : ∃ a s', s.Works a ∧ s.step a = some s' := by
  cases pc with
  | starting =>
    obtain ⟨dies, wakes, u, hu⟩ := s.exists_emptyLoop i false
    refine ⟨.taskThread i none dies wakes 0, u, trivial, ?_⟩
    rw [PoolState.step, PoolState.taskThread, hpc]
    exact hu
  | waiting timedout =>
    by_cases hw : i ∈ s.enqueueCond.woken
    · obtain ⟨dies, wakes, u, hu⟩ := exists_emptyLoop
        { s with enqueueCond := { s.enqueueCond with woken := s.enqueueCond.woken.erase i }, waiting := s.waiting - 1 }
        i timedout
      refine ⟨.taskThread i none dies wakes 0, u, trivial, ?_⟩
      rw [PoolState.step, PoolState.taskThread, hpc]
      exact Option.bind_eq_some_iff.2 ⟨_, if_pos hw, hu⟩
    · have ha := (h i timedout hpc).resolve_right hw
      obtain ⟨u, hu⟩ : ∃ u, (s.setWorker i (.waiting true)).signalEnqueue (some i) = some u :=
        ⟨_, congrArg (Option.map _) (if_pos ha)⟩
      refine ⟨.timeout i, u, hn, ?_⟩
      rw [PoolState.step, PoolState.timesOut, hpc]
      dsimp only
      rw [if_pos ⟨ht, ha⟩]
      exact hu
  | running r =>
    refine ⟨.run i, { s.setWorker i (.ran r) with ran := s.ran ++ [r] }, trivial, ?_⟩
    rw [PoolState.step, hpc]
  | ran r =>
    obtain ⟨done, t, ht⟩ := (s.finish i r).exists_signalDequeue
    obtain ⟨dies, wakes, u, hu⟩ := t.exists_emptyLoop i false
    refine ⟨.taskThread i done dies wakes 0, u, trivial, ?_⟩
    rw [PoolState.step, PoolState.taskThread, hpc]
    exact Option.bind_eq_some_iff.2 ⟨t, ht, hu⟩
  | exited => cases hlive
  | done => cases hlive

/-- When all workers sleep or are done, and the pool keeps those that there are, no worker can take a step. -/
theorem quiescent_of_asleep (hk : s.Kept s.numthreads) (hw : s.enqueueCond.woken = [])
    (h : ∀ pc ∈ s.workers, pc = .done ∨ pc = .waiting false) : s.Quiescent := by
  have hpc (i : Nat) : s.workers[i]? = none ∨ s.workers[i]? = some .done ∨ s.workers[i]? = some (.waiting false) := by
    cases hi : s.workers[i]? with
    | none => exact .inl rfl
    | some pc => exact .inr ((h pc (List.mem_of_getElem? hi)).imp (congrArg some) (congrArg some))
  intro a ha
  rw [poolNext, ite_eq_left_iff]
  intro _
  cases a with
  | taskThread i done dies wakes usec =>
    rw [PoolState.step, PoolState.taskThread]
    rcases hpc i with hi | hi | hi
    · rw [hi]
    · rw [hi]
    · rw [hi]
      have hwake : s.enqueueCond.wake i = none := if_neg (by simp [hw])
      dsimp only
      rw [hwake]
      rfl
  | timeout i =>
    rw [PoolState.step, PoolState.timesOut]
    rcases hpc i with hi | hi | hi <;> rw [hi]
    exact if_neg fun hkept => absurd ha (Nat.not_lt.2 (hk hkept.1))
  | run i =>
    rw [PoolState.step]
    rcases hpc i with hi | hi | hi <;> rw [hi]
  | exits i =>
    rw [PoolState.step]
    rcases hpc i with hi | hi | hi <;> rw [hi] <;> rfl
  | _ => cases ha

/-- Along a run that meets the condition the program goes on, and its workers are where they say they are. -/
theorem waits_of_reachableBy (h : threadPool.ReachableBy Releases s) : s.terminated = false ∧ Waits s := by
  refine h.invariant (I := fun s => s.terminated = false ∧ Waits s) ?_ ?_
  · rintro s ⟨minthreads, maxthreads, timeout, needscleanup, rfl⟩
    exact ⟨rfl, nofun⟩
  · rintro s a t ⟨ht, hs⟩ hok hn
    obtain ⟨-, hn⟩ := Option.ite_none_left_eq_some.1 hn
    have ht' := (terminated_step hok hn).trans ht
    exact ⟨ht', hs.step hn ht'⟩

private theorem released_of_reachableBy (h : threadPool.ReachableBy Releases s) : Released s := by
  refine h.invariant ?_ ?_
  · rintro s ⟨minthreads, maxthreads, timeout, needscleanup, rfl⟩
    exact fun _ _ => rfl
  · intro s a t hs hok hn
    obtain ⟨-, hn⟩ := Option.ite_none_left_eq_some.1 hn
    exact hs.step hok hn

end PoolState

open PoolState

end ProcessNetwork
