import ProcessNetwork.Kernel

/-!
# The loops of the kernel thread

`nodecond_signal` is set with every signal on `nodecond`, and reset only after the kernel thread has waited.  So no
wakeup is missed (`kernel_misses_no_wakeup`).  But a signal that comes while the thread is not waiting stays set, and
from then on the thread goes round its first loop without waiting (`kernel_waits`).
-/

namespace ProcessNetwork

namespace KernelState

variable {s s' : KernelState} {a : KernelAct} {i : Nat}

/-! ### No wakeup is missed -/

structure Awake (s : KernelState) : Prop where
  signal : s.thread = .waiting ∨ s.thread = .finalWaiting → s.nodecondSignal = false
  garbage : s.garbagenodes = [] ∨ s.nodecondSignal = true ∨ s.thread = .clearing ∨ s.thread = .finalClearing
  status : s.thread = .waiting → s.status = .running ∨ 0 < s.waking
  nodemap : s.thread = .finalWaiting → s.nodemap ≠ []

private theorem signal_ne (pc : KernelPc) : pc.signal ≠ .waiting ∧ pc.signal ≠ .finalWaiting := by
  cases pc <;> exact ⟨by decide, by decide⟩

/-- A signal wakes the thread, whatever has been done before. -/
theorem Awake.wake (s : KernelState) : Awake s.wake where
  signal h := h.elim (fun h => absurd h (signal_ne _).1) fun h => absurd h (signal_ne _).2
  garbage := .inr (.inl rfl)
  status h := absurd h (signal_ne _).1
  nodemap h := absurd h (signal_ne _).2

private theorem Awake.nodeTerminated (h : Awake s) (key : Nat) : Awake (s.nodeTerminated key) := by
  unfold KernelState.nodeTerminated
  split_ifs
  · exact .wake s
  · exact .wake _
  · exact h

/-- The thread is outside the two waits, with no garbage that it does not know of. -/
theorem Awake.outside (h1 : s.thread ≠ .waiting) (h2 : s.thread ≠ .finalWaiting)
    (hg : s.garbagenodes = [] ∨ s.nodecondSignal = true ∨ s.thread = .clearing ∨ s.thread = .finalClearing) :
    Awake s where
  signal hw := hw.elim (fun hw => absurd hw h1) fun hw => absurd hw h2
  garbage := hg
  status hw := absurd hw h1
  nodemap hw := absurd hw h2

private theorem Awake.entryPoint (h : Awake s) (hs : s.entryPoint = some s') : Awake s' := by
  -- garbage that is not being collected has been signalled
  have hg (h1 : s.thread ≠ .clearing) (h2 : s.thread ≠ .finalClearing) :
      s.garbagenodes = [] ∨ s.nodecondSignal = true := by
    rcases h.garbage with hg | hg | hg | hg
    · exact .inl hg
    · exact .inr hg
    · exact absurd hg h1
    · exact absurd hg h2
  have hgo {t : KernelState} (h1 : s.thread ≠ .clearing) (h2 : s.thread ≠ .finalClearing) (h3 : t.thread ≠ .waiting)
      (h4 : t.thread ≠ .finalWaiting) (h5 : t.garbagenodes = s.garbagenodes)
      (h6 : t.nodecondSignal = s.nodecondSignal) : Awake t := by
    refine .outside h3 h4 ?_
    rw [h5, h6]
    exact (hg h1 h2).imp_right .inl
  have hclear {t : KernelState} (h3 : t.thread ≠ .waiting) (h4 : t.thread ≠ .finalWaiting)
      (h5 : t.garbagenodes = []) : Awake t := .outside h3 h4 (.inl h5)
  unfold KernelState.entryPoint at hs
  cases hpc : s.thread <;> rw [hpc] at hs hgo hg <;> dsimp only at hs
  case starting =>
    cases hs
    exact hgo (by decide) (by decide) (by simp) (by simp) rfl rfl
  case signalStart =>
    cases hs
    refine hgo (by decide) (by decide) ?_ ?_ rfl rfl <;> dsimp only <;> split_ifs <;> decide
  case clearFirst =>
    cases hs
    exact hclear (by simp) (by simp) rfl
  case loop =>
    split_ifs at hs with hst hsig <;> cases hs
    · exact hgo (by decide) (by decide) (by simp) (by simp) rfl rfl
    -- the thread goes to sleep only after it has looked at the signal
    · have hsig : s.nodecondSignal = false := by simpa using hsig
      exact ⟨fun _ => hsig, (hg (by decide) (by decide)).imp_right .inl, fun _ => .inl hst, fun hw => by cases hw⟩
    · exact hgo (by decide) (by decide) (by simp) (by simp) rfl rfl
  case waiting => cases hs
  case woken =>
    cases hs
    exact .outside (by simp) (by simp) (.inr (.inr (.inl rfl)))
  case clearing =>
    cases hs
    exact hclear (by simp) (by simp) rfl
  case notifying =>
    cases hs
    exact hgo (by decide) (by decide) (by simp) (by simp) rfl rfl
  case clearBefore =>
    cases hs
    exact hclear (by simp) (by simp) rfl
  case finalLoop =>
    split_ifs at hs with hmap hsig <;> cases hs
    · exact hgo (by decide) (by decide) (by simp) (by simp) rfl rfl
    · exact hgo (by decide) (by decide) (by simp) (by simp) rfl rfl
    · have hsig : s.nodecondSignal = false := by simpa using hsig
      exact ⟨fun _ => hsig, (hg (by decide) (by decide)).imp_right .inl, fun hw => (by cases hw), fun _ => hmap⟩
  case finalWaiting => cases hs
  case finalWoken =>
    cases hs
    exact .outside (by simp) (by simp) (.inr (.inr (.inr rfl)))
  case finalClearing =>
    cases hs
    exact hclear (by simp) (by simp) rfl
  case clearLast =>
    cases hs
    exact hclear (by simp) (by simp) rfl
  case signalEnd =>
    cases hs
    exact hgo (by decide) (by decide) (by simp) (by simp) rfl rfl
  case post =>
    cases hs
    exact hgo (by decide) (by decide) (by simp) (by simp) rfl rfl
  case stopped => cases hs

/-- Steps that do not touch what the thread waits for, or that add to the node map. -/
theorem Awake.of_eq (h : Awake s) (h1 : s'.thread = s.thread) (h2 : s'.nodecondSignal = s.nodecondSignal)
    (h3 : s'.garbagenodes = s.garbagenodes) (h4 : s'.status = s.status ∨ 0 < s'.waking) (h5 : s.waking ≤ s'.waking)
    (h6 : s.nodemap ≠ [] → s'.nodemap ≠ []) : Awake s' where
  signal := by rw [h1, h2]; exact h.signal
  garbage := by rw [h1, h2, h3]; exact h.garbage
  status hw := by
    rcases h4 with h4 | h4
    · exact (h.status (h1 ▸ hw)).imp h4.trans fun h0 => Nat.lt_of_lt_of_le h0 h5
    · exact .inr h4
  nodemap hw := h6 (h.nodemap (h1 ▸ hw))

private theorem Awake.keep (h : Awake s) (h1 : s'.thread = s.thread) (h2 : s'.nodecondSignal = s.nodecondSignal)
    (h3 : s'.garbagenodes = s.garbagenodes) (h4 : s'.status = s.status) (h5 : s'.waking = s.waking)
    (h6 : s'.nodemap = s.nodemap) : Awake s' :=
  h.of_eq h1 h2 h3 (.inl h4) h5.ge (h6 ▸ id)

private theorem Awake.next (h : Awake s) (hs : kernelNext s a = some s') : Awake s' := by
  cases a with
  | thread => exact h.entryPoint hs
  | createNode =>
    obtain ⟨-, ⟨⟩⟩ := Option.ite_none_left_eq_some.1 hs
    exact h.keep rfl rfl rfl rfl rfl rfl
  | internalCreateNode i factory =>
    obtain ⟨-, hs⟩ := Option.ite_none_right_eq_some.1 hs
    split_ifs at hs <;> cases hs
    -- the map is not empty any more
    · exact h.of_eq rfl rfl rfl (.inl rfl) (Nat.le_refl _) fun _ => List.cons_ne_nil _ _
    · exact h.keep rfl rfl rfl rfl rfl rfl
  | createExternal =>
    obtain ⟨-, ⟨⟩⟩ := Option.ite_none_left_eq_some.1 hs
    exact h.keep rfl rfl rfl rfl rfl rfl
  | endpoint i =>
    have hs : s.endpoint i = some s' := hs
    unfold KernelState.endpoint at hs
    split at hs <;> cases hs
    · exact h.of_eq rfl rfl rfl (.inl rfl) (Nat.le_refl _) fun _ => List.cons_ne_nil _ _
    · exact h.keep rfl rfl rfl rfl rfl rfl
  | node i =>
    have hs : s.node i = some s' := hs
    unfold KernelState.node at hs
    split at hs <;> cases hs
    · exact h.keep rfl rfl rfl rfl rfl rfl
    · exact h.keep rfl rfl rfl rfl rfl rfl
    · exact h.keep rfl rfl rfl rfl rfl rfl
    · exact (h.nodeTerminated i).keep rfl rfl rfl rfl rfl rfl
  | destroy i =>
    obtain ⟨-, ⟨⟩⟩ := Option.ite_none_left_eq_some.1 hs
    exact h.keep rfl rfl rfl rfl rfl rfl
  | destroyer j =>
    have hs : s.destroyer j = some s' := hs
    unfold KernelState.destroyer at hs
    split at hs <;> cases hs
    · exact h.keep rfl rfl rfl rfl rfl rfl
    · exact h.keep rfl rfl rfl rfl rfl rfl
    · exact (h.nodeTerminated _).keep rfl rfl rfl rfl rfl rfl
  | terminate =>
    cases hs
    exact h.keep rfl rfl rfl rfl rfl rfl
  | notifyTerminate =>
    obtain ⟨-, ⟨⟩⟩ := Option.ite_none_left_eq_some.1 hs
    unfold KernelState.notifyTerminate
    split_ifs
    · exact h.keep rfl rfl rfl rfl rfl rfl
    · exact h.of_eq rfl rfl rfl (.inr (Nat.succ_pos _)) (Nat.le_succ _) id
    · exact h.keep rfl rfl rfl rfl rfl rfl
  | sendWakeup =>
    obtain ⟨-, ⟨⟩⟩ := Option.ite_none_left_eq_some.1 hs
    exact .wake _

private theorem awake_of_reachable (h : kernel.Reachable s) : Awake s := by
  refine h.invariant ?_ ?_
  · rintro s rfl
    exact .outside (by decide) (by decide) (.inl rfl)
  · intro s a t hs _ hn
    exact hs.next hn

/-! ### Going round without waiting -/

/-- The kernel thread is on its way to a test of `nodecond_signal` in its first loop. -/
def Heading (s : KernelState) : Bool :=
  match s.thread with
  | .starting => !s.terminated && (s.status = .initialized || s.status = .running)
  | .signalStart => !s.terminated && s.status = .running
  | .clearFirst | .loop | .clearing => s.status = .running
  | _ => false

/-- The step is a section that signals `nodecond`. -/
def Signals (s : KernelState) : KernelAct → Bool
  | .node i => s.nodes[i]? = some (.real .ended) && (s.status = .done || i ∈ s.nodemap)
  | .destroyer j =>
    match s.destroyers[j]? with
    | some (i, .ended) => s.status = .done || i ∈ s.nodemap
    | _ => false
  | .sendWakeup => true
  | _ => false

/-- No signal comes while the kernel thread is on its way to a test of `nodecond_signal` in its first loop. -/
def Awaited (s : KernelState) (a : KernelAct) : Prop := s.Signals a = true → s.Heading = false

instance : DecidableRel Awaited := fun s a => inferInstanceAs (Decidable (s.Signals a = true → s.Heading = false))

structure Quiet (s : KernelState) : Prop where
  signal : s.Heading = true → s.nodecondSignal = false
  spins : s.spins = 0

private theorem Quiet.keep (h : Quiet s) (h1 : s'.Heading = true → s.Heading = true)
    (h2 : s'.nodecondSignal = s.nodecondSignal) (h3 : s'.spins = s.spins) : Quiet s' :=
  ⟨fun hh => h2.trans (h.signal (h1 hh)), h3.trans h.spins⟩

private theorem Quiet.of_not_heading (h : Quiet s) (h1 : s'.Heading = false) (h2 : s'.spins = s.spins) : Quiet s' :=
  ⟨fun hh => absurd (hh.symm.trans h1) (by decide), h2.trans h.spins⟩

/-- A thread that is not on its way to the test is not sent there by a signal. -/
theorem heading_wake (hh : s.Heading = false) : s.wake.Heading = false := by
  unfold Heading KernelState.wake at *
  cases hpc : s.thread <;> rw [hpc] at hh <;> first | rfl | exact hh

private theorem Quiet.nodeTerminated (h : Quiet s) {key : Nat}
    (hok : (s.status = .done || key ∈ s.nodemap) = true → s.Heading = false) : Quiet (s.nodeTerminated key) := by
  unfold KernelState.nodeTerminated
  split_ifs with hdone hmem
  · exact h.of_not_heading (heading_wake (hok (by simp [hdone]))) rfl
  · refine h.of_not_heading (heading_wake (heading_wake ?_)) rfl
    exact hok (by simp [hmem])
  · exact h

private theorem Quiet.entryPoint (h : Quiet s) (hs : s.entryPoint = some s') : Quiet s' := by
  unfold KernelState.entryPoint at hs
  cases hpc : s.thread <;> rw [hpc] at hs <;> dsimp only at hs
  case starting =>
    cases hs
    refine h.keep (fun hh => ?_) rfl rfl
    rw [Heading, hpc]
    simp only [Heading, Bool.and_eq_true] at hh ⊢
    refine ⟨hh.1, ?_⟩
    by_cases hst : s.status = .initialized
    · simp [hst]
    · have hh := hh.2
      rw [if_neg hst] at hh
      simp [hh]
  case signalStart =>
    cases hs
    refine h.keep (fun hh => ?_) rfl rfl
    unfold Heading at hh ⊢
    rw [hpc]
    dsimp only at hh ⊢
    cases ht : s.terminated <;> rw [ht] at hh
    · exact hh
    · cases hh
  case clearFirst =>
    cases hs
    exact h.keep (fun hh => by rw [Heading, hpc]; exact hh) rfl rfl
  case loop =>
    have hsig (hst : s.status = .running) : s.nodecondSignal = false :=
      h.signal (by rw [Heading, hpc]; simp [hst])
    split_ifs at hs with hst hb <;> cases hs
    · rw [hsig hst] at hb
      cases hb
    · exact h.of_not_heading rfl rfl
    · exact h.of_not_heading rfl rfl
  case waiting => cases hs
  case woken =>
    cases hs
    exact ⟨fun _ => rfl, h.spins⟩
  case clearing =>
    cases hs
    exact h.keep (fun hh => by rw [Heading, hpc]; exact hh) rfl rfl
  case finalLoop =>
    split_ifs at hs <;> cases hs <;> exact h.of_not_heading rfl rfl
  case finalWaiting => cases hs
  case stopped => cases hs
  all_goals
    cases hs
    exact h.of_not_heading rfl rfl

private theorem Quiet.next (h : Quiet s) (hok : s.Awaited a) (hs : kernelNext s a = some s') : Quiet s' := by
  cases a with
  | thread => exact h.entryPoint hs
  | createNode =>
    obtain ⟨-, ⟨⟩⟩ := Option.ite_none_left_eq_some.1 hs
    exact h.keep id rfl rfl
  | internalCreateNode i factory =>
    obtain ⟨-, hs⟩ := Option.ite_none_right_eq_some.1 hs
    split_ifs at hs <;> cases hs <;> exact h.keep id rfl rfl
  | createExternal =>
    obtain ⟨-, ⟨⟩⟩ := Option.ite_none_left_eq_some.1 hs
    exact h.keep id rfl rfl
  | endpoint i =>
    have hs : s.endpoint i = some s' := hs
    unfold KernelState.endpoint at hs
    split at hs <;> cases hs <;> exact h.keep id rfl rfl
  | node i =>
    have hs : s.node i = some s' := hs
    unfold KernelState.node at hs
    split at hs <;> cases hs
    · exact h.keep id rfl rfl
    · exact h.keep id rfl rfl
    · exact h.keep id rfl rfl
    · rename_i hpc
      -- the signal of `NodeTerminated` does not come while the thread is on its way to the test
      refine (h.nodeTerminated fun hb => hok ?_).keep id rfl rfl
      rw [Signals, hpc, hb]
      rfl
  | destroy i =>
    obtain ⟨-, ⟨⟩⟩ := Option.ite_none_left_eq_some.1 hs
    exact h.keep id rfl rfl
  | destroyer j =>
    have hs : s.destroyer j = some s' := hs
    unfold KernelState.destroyer at hs
    split at hs <;> cases hs
    · exact h.keep id rfl rfl
    · exact h.keep id rfl rfl
    · rename_i hpc
      refine (h.nodeTerminated fun hb => hok ?_).keep id rfl rfl
      rw [Signals, hpc]
      exact hb
  | terminate =>
    cases hs
    refine h.keep (fun hh => ?_) rfl rfl
    unfold Heading at hh ⊢
    dsimp only at hh
    cases hpc : s.thread <;> rw [hpc] at hh <;> first | exact hh | cases hh
  | notifyTerminate =>
    obtain ⟨-, ⟨⟩⟩ := Option.ite_none_left_eq_some.1 hs
    unfold KernelState.notifyTerminate
    split_ifs
    · exact h.keep id rfl rfl
    · refine h.of_not_heading ?_ rfl
      unfold Heading
      dsimp only
      cases s.thread <;> simp
    · exact h.keep id rfl rfl
  | sendWakeup =>
    obtain ⟨-, ⟨⟩⟩ := Option.ite_none_left_eq_some.1 hs
    exact h.of_not_heading (heading_wake (s := { s with waking := s.waking - 1 }) (hok rfl)) rfl

private theorem quiet_of_reachableBy (h : kernel.ReachableBy Awaited s) : Quiet s := by
  refine h.invariant ?_ ?_
  · rintro s rfl
    exact ⟨fun _ => rfl, rfl⟩
  · intro s a t hs hok hn
    exact hs.next hok hn

/-- The kernel thread alone takes the state to one with at least `n` more iterations that did not wait. -/
def SpinsOn (s : KernelState) (n : Nat) : Prop :=
  ∃ t, kernel.LeadsBy Awaited s t ∧ t.calls = s.calls ∧ s.spins + n ≤ t.spins

private theorem SpinsOn.of_step {n m : Nat} (hs : s.entryPoint = some s') (hc : s'.calls = s.calls)
    (hm : s.spins + n ≤ s'.spins + m) (h : SpinsOn s' m) : SpinsOn s n := by
  obtain ⟨t, ht, h1, h2⟩ := h
  have hstep : kernel.LeadsBy Awaited s s' := .step (l := .thread) .refl (fun h => by cases h) hs
  exact ⟨t, hstep.trans ht, h1.trans hc, by omega⟩

/-- With the flag set, the loop does not wait. -/
theorem spinsOn_loop (n : Nat) (h1 : s.thread = .loop) (h2 : s.status = .running) (h3 : s.nodecondSignal = true) :
    SpinsOn s n := by
  induction n generalizing s with
  | zero => exact ⟨s, .refl, rfl, Nat.le_refl _⟩
  | succ n ih =>
    have hloop : s.entryPoint = some { s with thread := .clearing, spins := s.spins + 1 } := by
      rw [entryPoint, h1]
      simp only [h2, h3, if_true]
    have hclear : ({ s with thread := .clearing, spins := s.spins + 1 } : KernelState).entryPoint =
        some { s with thread := .loop, spins := s.spins + 1, garbagenodes := [] } := rfl
    refine .of_step hloop rfl (m := n) (by dsimp only; omega) (.of_step hclear rfl (m := n) (Nat.le_refl _) ?_)
    exact ih rfl h2 h3

private theorem spinsOn_of_heading (n : Nat) (hh : s.Heading = true) (h3 : s.nodecondSignal = true) : SpinsOn s n := by
  have hclear (t : KernelState) (ht : t.thread = .clearFirst ∨ t.thread = .clearing) (h2 : t.status = .running)
      (h3 : t.nodecondSignal = true) : SpinsOn t n := by
    have hstep : t.entryPoint = some { t with thread := .loop, garbagenodes := [] } := by
      rcases ht with ht | ht <;> rw [entryPoint, ht] <;> rfl
    exact .of_step hstep rfl (m := n) (Nat.le_refl _) (spinsOn_loop n rfl h2 h3)
  have hstart (t : KernelState) (ht : t.thread = .signalStart) (h1 : t.terminated = false) (h2 : t.status = .running)
      (h3 : t.nodecondSignal = true) : SpinsOn t n := by
    have hstep : t.entryPoint = some { t with thread := .clearFirst } := by
      rw [entryPoint, ht, h1]
      rfl
    exact .of_step hstep rfl (m := n) (Nat.le_refl _) (hclear _ (.inl rfl) h2 h3)
  unfold Heading at hh
  cases hpc : s.thread <;> rw [hpc] at hh <;> dsimp only at hh
  case starting =>
    rw [Bool.and_eq_true, Bool.not_eq_true', Bool.or_eq_true, decide_eq_true_eq, decide_eq_true_eq] at hh
    have hstep : s.entryPoint = some { s with
        status := if s.status = .initialized then .running else s.status, thread := .signalStart } := by
      rw [entryPoint, hpc]
    refine .of_step hstep rfl (m := n) (Nat.le_refl _) (hstart _ rfl hh.1 ?_ h3)
    rcases hh.2 with h2 | h2 <;> simp [h2]
  case signalStart =>
    rw [Bool.and_eq_true, Bool.not_eq_true', decide_eq_true_eq] at hh
    exact hstart s hpc hh.1 hh.2 h3
  case clearFirst => exact hclear s (.inl hpc) (of_decide_eq_true hh) h3
  case loop => exact spinsOn_loop n hpc (of_decide_eq_true hh) h3
  case clearing => exact hclear s (.inr hpc) (of_decide_eq_true hh) h3
  all_goals cases hh

private theorem heading_wake_of_heading (hh : s.Heading = true) : s.wake.Heading = true := by
  unfold Heading KernelState.wake at *
  cases hpc : s.thread <;> rw [hpc] at hh <;> exact hh

private theorem heading_nodeTerminated {key : Nat} (hok : (s.status = .done || key ∈ s.nodemap) = true)
    (hh : s.Heading = true) : (s.nodeTerminated key).Heading = true ∧ (s.nodeTerminated key).nodecondSignal = true := by
  unfold KernelState.nodeTerminated
  split_ifs with hdone hmem
  · exact ⟨heading_wake_of_heading hh, rfl⟩
  · exact ⟨heading_wake_of_heading (heading_wake_of_heading hh), rfl⟩
  · simp [hdone, hmem] at hok

/-- A signal that comes then is still set at the test. -/
theorem heading_of_not_awaited (hok : ¬ s.Awaited a) (hs : kernelNext s a = some s') :
    s'.Heading = true ∧ s'.nodecondSignal = true := by
  obtain ⟨hsig, hh⟩ := Classical.not_imp.1 hok
  have hh : s.Heading = true := eq_true_of_ne_false hh
  cases a with
  | node i =>
    have hs : s.node i = some s' := hs
    rw [Signals, Bool.and_eq_true, decide_eq_true_eq] at hsig
    rw [KernelState.node, hsig.1] at hs
    cases hs
    exact heading_nodeTerminated hsig.2 hh
  | destroyer j =>
    have hs : s.destroyer j = some s' := hs
    dsimp only [Signals] at hsig
    unfold KernelState.destroyer at hs
    split at hs <;> cases hs
    · rename_i hpc
      rw [hpc] at hsig
      cases hsig
    · rename_i hpc
      rw [hpc] at hsig
      cases hsig
    · rename_i hpc
      rw [hpc] at hsig
      exact heading_nodeTerminated hsig hh
  | sendWakeup =>
    obtain ⟨-, ⟨⟩⟩ := Option.ite_none_left_eq_some.1 hs
    exact ⟨heading_wake_of_heading (s := { s with waking := s.waking - 1 }) hh, rfl⟩
  | _ => cases hsig

end KernelState

open KernelState

/-- Whenever the kernel thread sleeps and no thread is in `NotifyTerminate` on its way to `SendWakeup`, there is nothing
for it to do: no garbage, no change of the status in the first loop, and nodes to wait for in the second. -/
theorem kernel_misses_no_wakeup {s : KernelState} (h : kernel.Reachable s)
    (hs : s.thread = .waiting ∨ s.thread = .finalWaiting) :
    s.garbagenodes = [] ∧ (s.thread = .waiting → s.waking = 0 → s.status = .running) ∧
      (s.thread = .finalWaiting → s.nodemap ≠ []) := by
  have ha := awake_of_reachable h
  have hpc : s.thread ≠ .clearing ∧ s.thread ≠ .finalClearing := by
    rcases hs with hs | hs <;> rw [hs] <;> exact ⟨by decide, by decide⟩
  refine ⟨?_, fun hw h0 => (ha.status hw).resolve_right (by omega), ha.nodemap⟩
  rcases ha.garbage with hg | hg | hg | hg
  · exact hg
  · rw [ha.signal hs] at hg
    cases hg
  · exact absurd hg hpc.1
  · exact absurd hg hpc.2

/-- A kernel whose thread sleeps in the loop that waits for the nodes, while a node is still running. -/
theorem kernel_misses_no_wakeup_node : ∃ s, kernel.Reachable s ∧ s.thread = .finalWaiting ∧ s.garbagenodes = [] ∧
    s.nodemap ≠ [] := by
  have hrun : ((kernel.runBy (fun _ _ => True) kernelStart
      [.thread, .thread, .thread, .thread, .createNode, .internalCreateNode 0 true, .node 0, .terminate,
        .notifyTerminate, .sendWakeup, .thread, .thread, .thread, .thread, .thread, .thread]).any
      fun s => decide (s.thread = .finalWaiting)) = true := by
    decide +kernel
  obtain ⟨s, hs, hp⟩ := Machine.exists_reachableBy (M := kernel) rfl hrun
  have hp := of_decide_eq_true hp
  obtain ⟨h1, -, h3⟩ := kernel_misses_no_wakeup hs (.inr hp)
  exact ⟨s, hs, hp, h1, h3 hp⟩

/-- As long as every signal finds the kernel thread away from the test of its first loop, every iteration of that loop
waits, so the wakeups account for all others.  After a signal that comes before the test, the thread can go round without
waiting more often than it has been woken. -/
theorem kernel_waits {s : KernelState} (h : kernel.ReachableBy Awaited s) : s.spins ≤ s.calls ∧
    ∀ a s', kernelNext s a = some s' →
      (s.Awaited a ↔ ∀ t, kernel.LeadsBy Awaited s' t → t.spins ≤ t.calls) := by
  have hle {t : KernelState} (ht : kernel.ReachableBy Awaited t) : t.spins ≤ t.calls := by
    rw [(quiet_of_reachableBy ht).spins]
    exact Nat.zero_le _
  refine ⟨hle h, fun a s' hs => ⟨fun hok t ht => hle ((h.step hok hs).trans ht), fun hall => ?_⟩⟩
  by_contra hok
  obtain ⟨hh, hf⟩ := heading_of_not_awaited hok hs
  obtain ⟨t, ht, hc, hsp⟩ := spinsOn_of_heading (s'.calls + 1) hh hf
  have := hall t ht
  omega

/-- A kernel whose thread is woken while it waits, and collects a node. -/
theorem kernel_waits_node : ∃ s, kernel.ReachableBy Awaited s ∧ s.calls = 2 ∧ s.thread = .waiting ∧ s.spins ≤ s.calls := by
  have hrun : ((kernel.runBy Awaited kernelStart
      [.thread, .thread, .thread, .thread, .createNode, .internalCreateNode 0 true, .node 0, .node 0, .node 0, .node 0,
        .thread, .thread, .thread]).any
      fun s => decide (s.calls = 2 ∧ s.thread = .waiting)) = true := by
    decide +kernel
  obtain ⟨s, hs, hp⟩ := Machine.exists_reachableBy (M := kernel) rfl hrun
  obtain ⟨h1, h2⟩ := of_decide_eq_true hp
  exact ⟨s, hs, h1, h2, (kernel_waits hs).1⟩

/-- A node that ends while the kernel thread is not waiting makes it go round: two calls, and three iterations without
waiting. -/
theorem not_forall_kernel_waits : ¬ ∀ s, kernel.Reachable s → s.spins ≤ s.calls := by
  have hrun : ((kernel.runBy (fun _ _ => True) kernelStart
      [.thread, .createNode, .internalCreateNode 0 true, .node 0, .node 0, .node 0, .node 0, .thread, .thread,
        .thread, .thread, .thread, .thread, .thread]).any
      fun s => decide (s.calls < s.spins)) = true := by
    decide +kernel
  obtain ⟨s, hs, hp⟩ := Machine.exists_reachableBy (M := kernel) rfl hrun
  intro h
  exact absurd (h s hs) (Nat.not_le.2 (of_decide_eq_true hp))

end ProcessNetwork
