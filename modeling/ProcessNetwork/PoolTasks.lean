import ProcessNetwork.ThreadPool
import ProcessNetwork.Lib.Places

/-!
# Every task is run once

`Consistent s` accounts for the tasks of a pool: a task that has been accepted is finished, with a worker, still in the
queue, or run by `Shutdown`.  Every thread that may still run is known to `Shutdown`, which joins all of them before it
runs what is left, so nothing is run twice and nothing is missed.
-/

namespace ProcessNetwork

/-- The task a worker has taken and not finished. -/
def WorkerPc.task : WorkerPc → Option Runnable
  | running r => some r
  | ran r => some r
  | _ => none

/-- The task a worker has run and not finished. -/
def WorkerPc.hasRun : WorkerPc → Option Runnable
  | ran r => some r
  | _ => none

/-- The worker is counted in `numthreads`. -/
def WorkerPc.live : WorkerPc → Bool
  | exited | done => false
  | _ => true

/-- The tasks that are still to be taken. -/
def CloserPc.remaining (taskqueue : List Runnable) : CloserPc → List Runnable
  | leftovers tasks => tasks
  | _ => taskqueue

/-- The threads that may not be done. -/
def CloserPc.unjoined (threads : List Nat) : CloserPc → List Nat
  | outside | waiting => threads
  | joining threadcopy => threadcopy
  | leftovers _ | returned => []

private theorem CloserPc.unjoined_mono {c : CloserPc} {i : Nat} {l l' : List Nat} (h : i ∈ c.unjoined l)
    (hl : i ∈ l → i ∈ l') : i ∈ c.unjoined l' := by
  cases c with
  | outside => exact hl h
  | waiting => exact hl h
  | _ => exact h

namespace PoolState

variable {s s' : PoolState} {i : Nat} {r : Runnable} {pc p : WorkerPc}

structure Consistent (s : PoolState) : Prop where
  accepted : ∀ r, s.accepted.count r = s.finished.count r + (s.workers.filterMap WorkerPc.task).count r +
    (s.closer.remaining s.taskqueue).count r + s.leftover.count r
  ran : ∀ r, s.ran.count r = s.finished.count r + (s.workers.filterMap WorkerPc.hasRun).count r + s.leftover.count r
  numtasks : s.numtasks + s.finished.length = s.accepted.length
  numthreads : s.numthreads = s.workers.countP WorkerPc.live
  unjoined : ∀ i pc, s.workers[i]? = some pc → pc = .done ∨ i ∈ s.closer.unjoined s.threads
  shutdown : s.shutdown = false → s.closer = .outside ∨ s.closer = .waiting
  returned : s.closer = .returned → s.taskqueue = []

namespace Consistent

theorem perm_accepted (h : Consistent s) :
    s.accepted.Perm (s.finished ++ s.workers.filterMap WorkerPc.task ++ s.closer.remaining s.taskqueue ++ s.leftover) := by
  refine List.perm_iff_count.2 fun r => ?_
  rw [h.accepted r, List.count_append, List.count_append, List.count_append]

private theorem start (minthreads maxthreads : Nat) (timeout : Timeout) (needscleanup : Bool) :
    Consistent (poolStart minthreads maxthreads timeout needscleanup) where
  accepted _ := rfl
  ran _ := rfl
  numtasks := rfl
  numthreads := rfl
  unjoined i pc h := by simp [poolStart] at h
  shutdown _ := .inl rfl
  returned h := by cases h

/-- The condition variables and `waiting` do not matter. -/
theorem withConds (h : Consistent s) (c : Condition Nat) (d : Condition Caller) (w : Nat) :
    Consistent { s with enqueueCond := c, dequeueCond := d, waiting := w } :=
  ⟨h.accepted, h.ran, h.numtasks, h.numthreads, h.unjoined, h.shutdown, h.returned⟩

private theorem signalEnqueue (h : Consistent s) {pick : Option Nat} (hs : s.signalEnqueue pick = some s') :
    Consistent s' := by
  obtain ⟨c, -, rfl⟩ := Option.map_eq_some_iff.1 hs
  exact h.withConds _ _ _

private theorem signalDequeue (h : Consistent s) {pick : Option Caller} (hs : s.signalDequeue pick = some s') :
    Consistent s' := by
  obtain ⟨c, -, rfl⟩ := Option.map_eq_some_iff.1 hs
  exact h.withConds _ _ _

/-- As long as there is a thread that is not done, the tasks left over are not being run. -/
theorem remaining_eq_of_ne_done (h : Consistent s) (hpc : s.workers[i]? = some pc) (hd : pc ≠ .done)
    (taskqueue : List Runnable) : s.closer.remaining taskqueue = taskqueue := by
  have hmem := (h.unjoined i pc hpc).resolve_left hd
  cases hc : s.closer with
  | leftovers tasks =>
    rw [hc] at hmem
    cases hmem
  | _ => rfl

/-! ### Execute -/

theorem internalCleanup (h : Consistent s) : Consistent s.internalCleanup := by
  unfold PoolState.internalCleanup
  split_ifs
  · refine ⟨h.accepted, h.ran, h.numtasks, h.numthreads, fun i pc hpc => ?_, h.shutdown, h.returned⟩
    by_cases hd : pc = .done
    · exact .inl hd
    · have hmem := (h.unjoined i pc hpc).resolve_left hd
      have hfilter (hi : i ∈ s.threads) : i ∈ s.threads.filter fun i => s.workers[i]? ≠ some .done := by
        refine List.mem_filter.2 ⟨hi, ?_⟩
        rw [hpc]
        simpa using hd
      exact .inr (CloserPc.unjoined_mono hmem hfilter)
  · exact h

private theorem spawn (h : Consistent s) : Consistent s.spawn := by
  unfold PoolState.spawn
  split_ifs with hsd
  · exact h
  · have hc := h.shutdown (eq_false_of_ne_true hsd)
    refine ⟨fun r => ?_, fun r => ?_, h.numtasks, ?_, fun i pc hpc => ?_, h.shutdown, h.returned⟩
    · rw [List.filterMap_append, show [WorkerPc.starting].filterMap WorkerPc.task = [] from rfl, List.append_nil]
      exact h.accepted r
    · rw [List.filterMap_append, show [WorkerPc.starting].filterMap WorkerPc.hasRun = [] from rfl, List.append_nil]
      exact h.ran r
    · rw [List.countP_append]
      exact congrArg (· + 1) h.numthreads
    · by_cases hlt : i < s.workers.length
      · rw [List.getElem?_append_left hlt] at hpc
        exact (h.unjoined i pc hpc).imp_right fun hi => CloserPc.unjoined_mono hi (List.mem_cons_of_mem _)
      · have hlen := (List.getElem?_eq_some_iff.1 hpc).1
        rw [List.length_append, List.length_singleton] at hlen
        right
        show i ∈ s.closer.unjoined (s.workers.length :: s.threads)
        have hi : i ∈ s.workers.length :: s.threads := List.mem_cons.2 (.inl (by omega))
        rcases hc with hc | hc <;> rw [hc] <;> exact hi

private theorem execute (h : Consistent s) {wakes : Option Nat} (hs : s.execute r wakes = some s') : Consistent s' := by
  unfold PoolState.execute at hs
  split_ifs at hs with hsd
  · cases hs
    exact h
  · have hc := h.shutdown (eq_false_of_ne_true hsd)
    have hq : Consistent { s with
        taskqueue := s.taskqueue ++ [r], numtasks := s.numtasks + 1, accepted := s.accepted ++ [r] } := by
      refine ⟨fun x => ?_, h.ran, ?_, h.numthreads, h.unjoined, h.shutdown, ?_⟩
      · have hx := h.accepted x
        rcases hc with hc | hc <;> rw [hc] at hx ⊢ <;>
          simp only [CloserPc.remaining, List.count_append] at hx ⊢ <;> omega
      · have := h.numtasks
        simp only [List.length_append, List.length_singleton]
        omega
      · intro hr
        rcases hc with hc | hc <;> rw [hc] at hr <;> cases hr
    have hclean := hq.internalCleanup
    dsimp only at hs
    split_ifs at hs
    · exact hclean.spawn.signalEnqueue hs
    · exact hclean.signalEnqueue hs

/-! ### The workers -/

theorem unjoined_set (h : Consistent s) (hpc : s.workers[i]? = some pc) (hd : pc ≠ .done ∨ p = .done) {j : Nat}
    {x : WorkerPc} (hj : (s.workers.set i p)[j]? = some x) : x = .done ∨ j ∈ s.closer.unjoined s.threads := by
  obtain ⟨rfl, rfl⟩ | ⟨-, hj⟩ := getElem?_set_cases hj
  · rcases hd with hd | hd
    · exact .inr ((h.unjoined _ pc hpc).resolve_left hd)
    · exact .inl hd
  · exact h.unjoined j x hj

/-- A worker goes on with the task it has. -/
theorem setWorker (h : Consistent s) (hpc : s.workers[i]? = some pc) (h1 : p.task = pc.task)
    (h2 : p.hasRun = pc.hasRun) (h3 : p.live = pc.live) (hd : pc ≠ .done ∨ p = .done) :
    Consistent (s.setWorker i p) := by
  refine ⟨fun r => ?_, fun r => ?_, h.numtasks, ?_, fun j x hj => ?_, h.shutdown, h.returned⟩
  · have hset := count_filterMap_set p r hpc (f := WorkerPc.task)
    have hr := h.accepted r
    rw [h1] at hset
    dsimp only [PoolState.setWorker]
    omega
  · have hset := count_filterMap_set p r hpc (f := WorkerPc.hasRun)
    have hr := h.ran r
    rw [h2] at hset
    dsimp only [PoolState.setWorker]
    omega
  · have hset := countP_set_add (p := WorkerPc.live) p hpc
    have hn := h.numthreads
    rw [h3] at hset
    dsimp only [PoolState.setWorker]
    omega
  · exact h.unjoined_set hpc hd hj

/-- A worker without a task goes to sleep, or ends the program. -/
theorem waitEnqueue (h : Consistent s) (hpc : s.workers[i]? = some pc) (htask : pc.task = none) (hrun : pc.hasRun = none)
    (hlive : pc.live = true) (usec : Fin 1000000) : Consistent (s.waitEnqueue i usec) := by
  have hd : pc ≠ .done := by
    rintro rfl
    cases hlive
  unfold PoolState.waitEnqueue
  split_ifs
  · exact ⟨h.accepted, h.ran, h.numtasks, h.numthreads, h.unjoined, h.shutdown, h.returned⟩
  · exact (h.setWorker (p := .waiting false) hpc htask.symm hrun.symm hlive.symm (.inl hd)).withConds _ _ _

private theorem emptyLoop (h : Consistent s) {timedout : Bool} {dies : Option Caller} {wakes : Option Nat}
    {usec : Fin 1000000}
    (hpc : s.workers[i]? = some pc) (htask : pc.task = none) (hlive : pc.live = true)
    (hs : s.emptyLoop i timedout dies wakes usec = some s') : Consistent s' := by
  have hd : pc ≠ .done := by
    rintro rfl
    cases hlive
  have hrun : pc.hasRun = none := by cases pc <;> first | rfl | cases htask
  unfold PoolState.emptyLoop at hs
  split at hs
  · rename_i r rest hq
    cases hs
    have hret : s.closer ≠ .returned := by
      intro hr
      rw [h.returned hr] at hq
      cases hq
    -- the worker takes the first task out of the queue
    refine ⟨fun x => ?_, fun x => ?_, h.numtasks, ?_, fun j x hj => h.unjoined_set hpc (.inl hd) hj, h.shutdown,
      fun hr => absurd hr hret⟩
    · have hset := count_filterMap_set (.running r) x hpc (f := WorkerPc.task)
      have hx := h.accepted x
      rw [h.remaining_eq_of_ne_done hpc hd, hq, List.count_cons] at hx
      rw [htask] at hset
      simp only [WorkerPc.task, Option.toList_some, Option.toList_none, List.count_nil, List.count_singleton] at hset
      dsimp only [PoolState.setWorker]
      rw [h.remaining_eq_of_ne_done hpc hd]
      omega
    · have hset := count_filterMap_set (.running r) x hpc (f := WorkerPc.hasRun)
      have hx := h.ran x
      rw [hrun] at hset
      simp only [WorkerPc.hasRun] at hset
      dsimp only [PoolState.setWorker]
      omega
    · have hset := countP_set_add (p := WorkerPc.live) (.running r) hpc
      have hn := h.numthreads
      rw [hlive] at hset
      simp only [WorkerPc.live] at hset
      dsimp only [PoolState.setWorker]
      omega
  · split_ifs at hs with hdies
    -- the worker gives up after its timeout
    · have hexit : Consistent { s.setWorker i .exited with numthreads := s.numthreads - 1, needscleanup := true } := by
        refine ⟨fun x => ?_, fun x => ?_, h.numtasks, ?_, fun j x hj => h.unjoined_set hpc (.inl hd) hj, h.shutdown,
          h.returned⟩
        · have hset := count_filterMap_set .exited x hpc (f := WorkerPc.task)
          have hx := h.accepted x
          rw [htask] at hset
          simp only [WorkerPc.task] at hset
          dsimp only [PoolState.setWorker]
          omega
        · have hset := count_filterMap_set .exited x hpc (f := WorkerPc.hasRun)
          have hx := h.ran x
          rw [hrun] at hset
          simp only [WorkerPc.hasRun] at hset
          dsimp only [PoolState.setWorker]
          omega
        · have hset := countP_set_add (p := WorkerPc.live) .exited hpc
          have hn := h.numthreads
          rw [hlive] at hset
          simp only [WorkerPc.live] at hset
          dsimp only [PoolState.setWorker]
          simp only [if_true, Bool.false_eq_true, if_false] at hset
          omega
      obtain ⟨t, ht, hs⟩ := Option.bind_eq_some_iff.1 hs
      exact (hexit.signalEnqueue ht).signalDequeue hs
    · cases hs
      have hclean := h.internalCleanup
      have hworkers : s.internalCleanup.workers = s.workers := by
        obtain ⟨threads, needscleanup, heq⟩ := s.exists_internalCleanup_eq
        rw [heq]
      exact (hclean.withConds s.internalCleanup.enqueueCond s.internalCleanup.dequeueCond _).waitEnqueue (hworkers ▸ hpc)
        htask hrun hlive usec

private theorem taskThread (h : Consistent s) {done dies : Option Caller} {wakes : Option Nat} {usec : Fin 1000000}
    (hs : s.taskThread i done dies wakes usec = some s') : Consistent s' := by
  unfold PoolState.taskThread at hs
  split at hs
  · rename_i hpc
    exact h.emptyLoop hpc rfl rfl hs
  · rename_i timedout hpc
    obtain ⟨c, -, hs⟩ := Option.bind_eq_some_iff.1 hs
    exact (h.withConds c _ _).emptyLoop hpc rfl rfl hs
  · rename_i r hpc
    have hlt := (List.getElem?_eq_some_iff.1 hpc).1
    have hdone : Consistent (s.finish i r) := by
      refine ⟨fun x => ?_, fun x => ?_, ?_, ?_, fun j x hj => h.unjoined_set hpc (.inl (by simp)) hj, h.shutdown,
        h.returned⟩
      · have hset := count_filterMap_set .starting x hpc (f := WorkerPc.task)
        have hx := h.accepted x
        simp only [WorkerPc.task, Option.toList_some, Option.toList_none, List.count_nil] at hset
        dsimp only [PoolState.finish, PoolState.setWorker]
        rw [List.count_append]
        omega
      · have hset := count_filterMap_set .starting x hpc (f := WorkerPc.hasRun)
        have hx := h.ran x
        simp only [WorkerPc.hasRun, Option.toList_some, Option.toList_none, List.count_nil] at hset
        dsimp only [PoolState.finish, PoolState.setWorker]
        rw [List.count_append]
        omega
      · -- the task is one of those accepted and not finished
        have hmem : r ∈ s.workers.filterMap WorkerPc.task := List.mem_filterMap.2 ⟨_, List.mem_of_getElem? hpc, rfl⟩
        have hlen := h.perm_accepted.length_eq
        have hpos := List.length_pos_of_mem hmem
        have hn := h.numtasks
        dsimp only [PoolState.finish, PoolState.setWorker]
        simp only [List.length_append, List.length_singleton] at hlen ⊢
        omega
      · have hset := countP_set_add (p := WorkerPc.live) .starting hpc
        have hn := h.numthreads
        simp only [WorkerPc.live] at hset
        dsimp only [PoolState.finish, PoolState.setWorker]
        omega
    obtain ⟨t, ht, hs⟩ := Option.bind_eq_some_iff.1 hs
    have hworkers : t.workers = s.workers.set i .starting := by
      obtain ⟨c, -, rfl⟩ := Option.map_eq_some_iff.1 ht
      rfl
    refine (hdone.signalDequeue ht).emptyLoop (show _ = some WorkerPc.starting from ?_) rfl rfl hs
    rw [hworkers, List.getElem?_set_self hlt]
  · cases hs

private theorem timesOut (h : Consistent s) (hs : s.timesOut i = some s') : Consistent s' := by
  unfold PoolState.timesOut at hs
  split at hs
  · rename_i hpc
    obtain ⟨-, hs⟩ := Option.ite_none_right_eq_some.1 hs
    exact (h.setWorker (p := .waiting true) hpc rfl rfl rfl (.inl (by simp))).signalEnqueue hs
  · cases hs

/-- Running the task a worker has taken. -/
theorem run (h : Consistent s) (hpc : s.workers[i]? = some (.running r)) :
    Consistent { s.setWorker i (.ran r) with ran := s.ran ++ [r] } := by
  refine ⟨fun x => ?_, fun x => ?_, h.numtasks, ?_, fun j x hj => h.unjoined_set hpc (.inl (by simp)) hj, h.shutdown,
    h.returned⟩
  · have hset := count_filterMap_set (.ran r) x hpc (f := WorkerPc.task)
    have hx := h.accepted x
    simp only [WorkerPc.task] at hset
    dsimp only [PoolState.setWorker]
    omega
  · have hset := count_filterMap_set (.ran r) x hpc (f := WorkerPc.hasRun)
    have hx := h.ran x
    simp only [WorkerPc.hasRun, Option.toList_some, Option.toList_none, List.count_nil] at hset
    dsimp only [PoolState.setWorker]
    rw [List.count_append]
    omega
  · have hset := countP_set_add (p := WorkerPc.live) (.ran r) hpc
    have hn := h.numthreads
    simp only [WorkerPc.live] at hset
    dsimp only [PoolState.setWorker]
    omega

/-! ### Shutdown -/

theorem shutdownLoop (h : Consistent s) (hc : s.closer = .outside ∨ s.closer = .waiting ∨ s.closer = .returned) :
    Consistent s.shutdownLoop := by
  have hrem : s.closer.remaining s.taskqueue = s.taskqueue := by
    rcases hc with hc | hc | hc <;> rw [hc] <;> rfl
  have hunj : ∀ i pc, s.workers[i]? = some pc → pc = .done ∨ i ∈ s.threads := by
    intro i pc hpc
    refine (h.unjoined i pc hpc).imp_right fun hi => ?_
    rcases hc with hc | hc | hc <;> rw [hc] at hi
    · exact hi
    · exact hi
    · cases hi
  have hacc := h.accepted
  rw [hrem] at hacc
  unfold PoolState.shutdownLoop
  split_ifs
  · exact ⟨hacc, h.ran, h.numtasks, h.numthreads, hunj, fun _ => .inr rfl, fun hr => by cases hr⟩
  · exact ⟨hacc, h.ran, h.numtasks, h.numthreads, hunj, fun hf => (by cases hf), fun hr => by cases hr⟩

private theorem join (h : Consistent s) (hs : s.join = some s') : Consistent s' := by
  unfold PoolState.join at hs
  split at hs
  · rename_i i rest hc
    obtain ⟨hi, ⟨⟩⟩ := Option.ite_none_right_eq_some.1 hs
    have hacc := h.accepted
    have hunj := h.unjoined
    have hsd := h.shutdown
    rw [hc] at hacc hunj hsd
    refine ⟨hacc, h.ran, h.numtasks, h.numthreads, fun j pc hpc => ?_, fun hf => ?_, fun hr => by cases hr⟩
    · rcases hunj j pc hpc with hd | hj
      · exact .inl hd
      · rcases List.mem_cons.1 hj with rfl | hj
        · rw [show s.workers[j]? = some pc from hpc] at hi
          cases hi
          exact .inl rfl
        · exact .inr hj
    · rcases hsd hf with hf | hf <;> cases hf
  · rename_i hc
    cases hs
    have hacc := h.accepted
    have hunj := h.unjoined
    have hsd := h.shutdown
    rw [hc] at hacc hunj hsd
    refine ⟨hacc, h.ran, h.numtasks, h.numthreads, hunj, fun hf => ?_, fun hr => by cases hr⟩
    rcases hsd hf with hf | hf <;> cases hf
  · cases hs

private theorem runLeftover (h : Consistent s) (hs : s.runLeftover = some s') : Consistent s' := by
  unfold PoolState.runLeftover at hs
  split at hs
  · rename_i r rest hc
    cases hs
    have hacc := h.accepted
    have hunj := h.unjoined
    have hsd := h.shutdown
    rw [hc] at hacc hunj hsd
    refine ⟨fun x => ?_, fun x => ?_, h.numtasks, h.numthreads, hunj, fun hf => ?_, fun hr => by cases hr⟩
    · have hx := hacc x
      simp only [CloserPc.remaining, List.count_append, List.count_cons, List.count_nil] at hx ⊢
      omega
    · have hx := h.ran x
      simp only [List.count_append] at hx ⊢
      omega
    · rcases hsd hf with hf | hf <;> cases hf
  · rename_i hc
    cases hs
    have hacc := h.accepted
    have hunj := h.unjoined
    have hsd := h.shutdown
    rw [hc] at hacc hunj hsd
    refine ⟨hacc, h.ran, h.numtasks, h.numthreads, hunj, fun hf => ?_, fun _ => rfl⟩
    rcases hsd hf with hf | hf <;> cases hf
  · cases hs

/-! ### Whole steps -/

theorem step (h : Consistent s) {a : PoolAct} (hs : s.step a = some s') : Consistent s' := by
  have hwait (i : Nat) {t : PoolState} (ht : Consistent t) : Consistent (t.waitLoop i) := by
    unfold waitLoop
    split_ifs
    · exact ht.withConds _ _ _
    · exact ht
  cases a with
  | execute r wakes => exact h.execute hs
  | wait i =>
    simp only [PoolState.step] at hs
    split_ifs at hs <;> cases hs
    · exact h
    · exact hwait i h
  | shutdown =>
    obtain ⟨hc, ⟨⟩⟩ := Option.ite_none_right_eq_some.1 hs
    exact h.shutdownLoop (hc.imp_right .inr)
  | wakes c =>
    cases c with
    | client i =>
      obtain ⟨c, -, rfl⟩ := Option.map_eq_some_iff.1 hs
      exact hwait i (h.withConds _ c _)
    | closer =>
      obtain ⟨hc, hs⟩ := Option.ite_none_right_eq_some.1 hs
      obtain ⟨c, -, rfl⟩ := Option.map_eq_some_iff.1 hs
      exact (h.withConds _ c _).shutdownLoop (.inr (.inl hc))
  | join => exact h.join hs
  | runLeftover => exact h.runLeftover hs
  | taskThread i done dies wakes usec => exact h.taskThread hs
  | timeout i => exact h.timesOut hs
  | run i =>
    simp only [PoolState.step] at hs
    split at hs
    · rename_i r hpc
      cases hs
      exact h.run hpc
    · cases hs
  | exits i =>
    obtain ⟨hpc, ⟨⟩⟩ := Option.ite_none_right_eq_some.1 hs
    exact h.setWorker hpc rfl rfl rfl (.inr rfl)

/-- When `Shutdown` has returned, every accepted task has been run, as often as it was accepted. -/
theorem perm_of_returned (h : Consistent s) (hc : s.closer = .returned) : s.ran.Perm s.accepted := by
  have hdone : s.workers.filterMap WorkerPc.task = [] := by
    refine List.filterMap_eq_nil_iff.2 fun pc hpc => ?_
    obtain ⟨i, hi⟩ := List.mem_iff_getElem?.1 hpc
    have := h.unjoined i pc hi
    rw [hc] at this
    rcases this with rfl | hi
    · rfl
    · cases hi
  have hran : s.workers.filterMap WorkerPc.hasRun = [] := by
    refine List.filterMap_eq_nil_iff.2 fun pc hpc => ?_
    have := List.filterMap_eq_nil_iff.1 hdone pc hpc
    cases pc <;> first | rfl | cases this
  refine List.perm_iff_count.2 fun r => ?_
  have hr := h.accepted r
  rw [h.ran r, hran, hr, hdone, hc, h.returned hc]
  rfl

end Consistent

theorem consistent_of_reachableBy {ok : PoolState → PoolAct → Prop} (h : threadPool.ReachableBy ok s) :
    Consistent s := by
  refine h.invariant ?_ ?_
  · rintro s ⟨minthreads, maxthreads, timeout, needscleanup, rfl⟩
    exact .start minthreads maxthreads timeout needscleanup
  · intro s a t hs _ hn
    obtain ⟨-, hn⟩ := Option.ite_none_left_eq_some.1 hn
    exact hs.step hn

end PoolState

end ProcessNetwork
