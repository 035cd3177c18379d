import ProcessNetwork.LocalBlocking
import ProcessNetwork.LocalEffects

/-!
# What a waiting thread waits for

A thread that waits has noted what it asked for, and a thread that sleeps is short of it.
-/

namespace ProcessNetwork.LocalState

variable {k : KernelBase} {s s' : LocalState} {l : LocalAct} {t c : Nat}

private theorem requests_of_toQueueBase {q q' : ThresholdQueue} (h : q'.toQueueBase = q.toQueueBase) :
    q'.readrequest = q.readrequest ∧ q'.writerequest = q.writerequest := by
  rw [h]
  exact ⟨rfl, rfl⟩

/-- The request of a waiting thread is the threshold of its call. -/
structure Requests (s : LocalState) : Prop where
  reader : ∀ t c, s.reader = .waiting t c → s.q.readrequest = t
  writer : ∀ t c grown, s.writer = .waiting t c grown → s.q.writerequest = t

private theorem Requests.of_same (h : Requests s) (hr : s'.reader = s.reader) (hw : s'.writer = s.writer)
    (hread : s'.q.readrequest = s.q.readrequest) (hwrite : s'.q.writerequest = s.q.writerequest) : Requests s' where
  reader t c hwait := hread.trans (h.reader t c (hr ▸ hwait))
  writer t c grown hwait := hwrite.trans (h.writer t c grown (hw ▸ hwait))

/-- A step of a reader that does not wait afterwards. -/
theorem Requests.of_reader (h : Requests s) (hr : ∀ t c, s'.reader ≠ .waiting t c) (hw : s'.writer = s.writer)
    (hwrite : s'.q.writerequest = s.q.writerequest) : Requests s' where
  reader t c hwait := absurd hwait (hr t c)
  writer t c grown hwait := hwrite.trans (h.writer t c grown (hw ▸ hwait))

private theorem Requests.of_writer (h : Requests s) (hr : s'.reader = s.reader)
    (hw : ∀ t c grown, s'.writer ≠ .waiting t c grown)
    (hread : s'.q.readrequest = s.q.readrequest) : Requests s' where
  reader t c hwait := hread.trans (h.reader t c (hr ▸ hwait))
  writer t c grown hwait := absurd hwait (hw t c grown)

private theorem Requests.dequeueStep (h : Requests s) (hr : s.reader = .loop t c) (hs : DequeueStep k s t c s') :
    Requests s' := by
  cases hs with
  | pointer => exact h.of_reader (fun _ _ heq => by cases heq) rfl rfl
  | ends => exact h.of_reader (fun _ _ heq => by cases heq) rfl rfl
  | grows len hin hsd hcar hg =>
    exact h.of_same rfl rfl (requests_of_toQueueBase hg.toQueueBase).1 (requests_of_toQueueBase hg.toQueueBase).2
  | blocks =>
    refine ⟨fun t' c' heq => ?_, h.writer⟩
    cases heq
    rfl
  | goesOn => exact h.of_reader (fun _ _ heq => by cases hr.symm.trans heq) rfl rfl

private theorem Requests.enqueueStep {grown : Bool} (h : Requests s) (hs : EnqueueStep k s t c grown s') : Requests s' := by
  cases hs with
  | pointer => exact h.of_writer rfl (fun _ _ _ heq => by cases heq) rfl
  | ends => exact h.of_writer rfl (fun _ _ _ heq => by cases heq) rfl
  | raises len hin hsd hm hcar hg =>
    exact h.of_writer rfl (fun _ _ _ heq => by cases heq) (requests_of_toQueueBase hg.toQueueBase).1
  | grows hin hsd hm hb hcar hg =>
    exact h.of_writer rfl (fun _ _ _ heq => by cases heq) (requests_of_toQueueBase hg.toQueueBase).1
  | blocks =>
    refine ⟨h.reader, fun t' c' grown' heq => ?_⟩
    cases heq
    rfl
  | goesOn => exact h.of_writer rfl (fun _ _ _ heq => by cases heq) rfl

private theorem Requests.next (h : Requests s) (hsound : Sound s) (hok : s.NotBroken l) (hs : Step k s l s') :
    Requests s' := by
  cases hs with
  | getRawDequeuePtr hlock hr hc =>
    unfold LocalState.getRawDequeuePtr
    split_ifs
    · exact h.of_reader (fun _ _ heq => by cases heq) rfl rfl
    · exact h
    · exact h.of_reader (fun _ _ heq => by cases heq) rfl rfl
  | dequeuePass hr =>
    have hat := hsound.reader
    rw [hr] at hat
    exact h.dequeueStep hr (dequeuePass_step hsound.carries hat.2)
  | readerWakes hr =>
    unfold LocalState.readerWakes
    split_ifs
    · exact h.of_same rfl rfl rfl rfl
    · exact h.of_reader (fun _ _ heq => by cases heq) rfl rfl
  | @dequeue n hlock hr hn =>
    have hidle : (s.dequeue n).reader = .idle := (dequeue_eq s n).2.2.1.trans hr
    have hrequest : (s.dequeue n).q.writerequest = s.q.writerequest := by
      unfold LocalState.dequeue
      dsimp only
      split_ifs
      · rfl
      · obtain ⟨cond, hnotify⟩ := Queue.notifyFreespace_eq
          (({ s.q with dequeuethresh := 0, indequeue := false } : ThresholdQueue).internalDequeue n)
        rw [hnotify]
        exact (requests_of_toQueueBase (ThresholdQueue.toQueueBase_internalDequeue _ n)).2
    refine h.of_reader (fun _ _ heq => ?_) (dequeue_eq s n).2.2.2.1 hrequest
    rw [hidle] at heq
    cases heq
  | getRawEnqueuePtr hlock hw hc =>
    unfold LocalState.getRawEnqueuePtr
    split_ifs
    · exact h.of_writer rfl (fun _ _ _ heq => by cases heq) rfl
    · exact h
    · exact h.of_writer rfl (fun _ _ _ heq => by cases heq) rfl
  | enqueuePass hw =>
    have hat := hsound.writer
    rw [hw] at hat
    exact h.enqueueStep (enqueuePass_step hsound.carries hat.2)
  | writerWakes hw =>
    unfold LocalState.writerWakes
    split_ifs
    · exact h.of_same rfl rfl rfl rfl
    · exact h.of_writer rfl (fun _ _ _ heq => by cases heq) rfl
  | @write p off b hw hp hoff =>
    unfold LocalState.write
    split
    · exact h.of_same rfl rfl rfl rfl
    · rename_i q' hstore
      have hbase : q'.toQueueBase = s.q.toQueueBase := by
        unfold ThresholdQueue.store at hstore
        split_ifs at hstore
        · cases hstore
          rfl
        · obtain ⟨old, -, rfl⟩ := Option.map_eq_some_iff.1 hstore
          rfl
      exact h.of_same rfl rfl (requests_of_toQueueBase hbase).1 (requests_of_toQueueBase hbase).2
  | @enqueue n hlock hw hn =>
    obtain ⟨q', hinternal, -⟩ := hsound.carries.internalEnqueue (Sound.enqueue_le_getD hn)
      (b := { s.q.toQueueBase with enqueuethresh := 0, inenqueue := false }) rfl rfl
    -- the step is careful, so `Enqueue` does not throw
    have hsd : s.q.writeshutdown = false := hok
    unfold LocalState.enqueue
    rw [if_neg (by simpa using hsd)]
    dsimp only at hinternal ⊢
    rw [hinternal]
    obtain ⟨cond, hnotify⟩ := Queue.notifyData_eq q'
    refine h.of_writer rfl (fun _ _ _ heq => by cases hw.symm.trans heq) ?_
    dsimp only
    rw [hnotify]
    exact (requests_of_toQueueBase (ThresholdQueue.toQueueBase_internalEnqueue hinternal)).1
  | @grow len mt hlock =>
    obtain ⟨q', hgrow, -, hg⟩ | ⟨hsame, -⟩ := hsound.grow_cases (k := k) len mt
    · rw [hgrow]
      exact h.of_same rfl rfl (requests_of_toQueueBase hg.toQueueBase).1 (requests_of_toQueueBase hg.toQueueBase).2
    · rw [hsame]
      exact h
  | shutdownReader => exact h.of_same rfl rfl rfl rfl
  | shutdownWriter => exact h.of_same rfl rfl rfl rfl
  | detect hw =>
    have hat := hsound.writer
    rw [hw] at hat
    obtain ⟨q', hgrow, -, hg⟩ := hsound.unlockedGrow (k := k) (.inl hat.2.1)
      (k.calculateGrowSize s.q.queue.count s.q.writerequest) s.q.writerequest
    rw [LocalState.detect, hgrow]
    exact h.of_same rfl rfl (requests_of_toQueueBase hg.toQueueBase).1 (requests_of_toQueueBase hg.toQueueBase).2
  | deadlock => exact h.of_reader (fun _ _ heq => by cases heq) rfl rfl
  | spuriousWakeup => exact h.of_same rfl rfl rfl rfl

/-- The steps of runs in which no call throws because of a shutdown, and no `Grow` makes room for a sleeping writer. -/
def Considerate (s : LocalState) (l : LocalAct) : Prop := s.NotBroken l ∧ s.MakesNoRoom l

theorem requests_of_reachableBy (h : (localQueue k).ReachableBy Considerate s) : Requests s := by
  refine (h.invariant (I := fun s => Sound s ∧ Requests s) ?_ ?_).2
  · rintro s ⟨length, maxThreshold, numChannels, rfl⟩
    refine ⟨Sound.start k length maxThreshold numChannels, ?_, ?_⟩
    · intro t c heq
      cases heq
    · intro t c grown heq
      cases heq
  · rintro s l s' ⟨hsound, hrequests⟩ hok hn
    have hstep := step_of_localNext hn
    exact ⟨hsound.next hok.1 hstep, hrequests.next hsound hok.1 hstep⟩

theorem noLostWakeup_of_reachableBy (h : (localQueue k).ReachableBy Considerate s) : NoLostWakeup s := by
  have hinv : Awake s.q ∨ s.q.shutdown = false ∧ Sound s ∧ Sleeps s := by
    refine h.invariant (I := fun s => Awake s.q ∨ s.q.shutdown = false ∧ Sound s ∧ Sleeps s) ?_ ?_
    · rintro s ⟨length, maxThreshold, numChannels, rfl⟩
      exact .inr ⟨rfl, Sound.start k length maxThreshold numChannels, .of_woken fun _ => rfl⟩
    · intro s l s' hs hok hn
      exact (noLostWakeup_next hs (step_of_localNext hn)).2 hok.2
  obtain hawake | ⟨hsd, -, hsleeps⟩ := hinv
  · exact .of_awake hawake
  · exact (noLostWakeup_iff hsd).2 hsleeps

end ProcessNetwork.LocalState
