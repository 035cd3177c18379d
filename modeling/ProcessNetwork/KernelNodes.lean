import ProcessNetwork.Kernel

/-!
# A kernel that waits for its nodes

After its first loop the kernel thread waits until the node map is empty.  The thread of a node takes the node out of the
map itself.  An external endpoint is taken out by `DestroyExternalEndpoint`, which asks the context for the key, and the
context refuses once it has been terminated.  So an endpoint that is left in the map when the context is terminated, with
no `DestroyExternalEndpoint` under way, stays there, and the kernel waits for ever (`kernel_not_stuck`).
-/

namespace ProcessNetwork

/-- The node has an entry in the node map. -/
def KernelNode.inMap : KernelNode → Bool
  | real .spawned | real .processing | real .ending | real .ended => true
  | external .inserted | external .created | external .refused => true
  | _ => false

/-- The thread of the node has been started and has not ended. -/
def KernelNode.runs : KernelNode → Bool
  | real .spawned | real .processing | real .ending | real .ended => true
  | _ => false

/-- The thread is past the first loop of `EntryPoint`. -/
def KernelPc.past : KernelPc → Bool
  | notifying | clearBefore | finalLoop | finalWaiting | finalWoken | finalClearing | clearLast | signalEnd | post |
    stopped => true
  | _ => false

/-- The thread waits for the node map to become empty. -/
def KernelPc.waitsForNodes : KernelPc → Bool
  | finalLoop | finalWaiting | finalWoken | finalClearing => true
  | _ => false

namespace KernelState

variable {s s' : KernelState} {a : KernelAct} {i j : Nat} {R : Prop}

/-- Some operation of the program can still take the entry out of the map. -/
def Erasable (s : KernelState) (i : Nat) : Prop := ∃ t, kernel.LeadsBy (fun _ _ => True) s t ∧ i ∉ t.nodemap

/-- The kernel waits for an entry that nothing can take out of the map, with all threads of nodes ended. -/
def Stuck (s : KernelState) : Prop :=
  s.thread.waitsForNodes = true ∧ (∀ pc ∈ s.nodes, pc.runs = false) ∧ ∃ i ∈ s.nodemap, ¬ s.Erasable i

/-- A `DestroyExternalEndpoint` that has the key of the endpoint is under way. -/
def Destroying (s : KernelState) (i : Nat) : Prop := ∃ d ∈ s.destroyers, d.1 = i ∧ d.2 ≠ .out

/-- The context is not terminated while an external endpoint is being created, or is in the map with no
`DestroyExternalEndpoint` under way. -/
def Settled (s : KernelState) : KernelAct → Prop
  | .terminate => s.terminated = false →
    KernelNode.external .keyed ∉ s.nodes ∧ ∀ i ∈ s.nodemap, s.isPurePseudo i = true → s.Destroying i
  | _ => True

instance (s : KernelState) (i : Nat) : Decidable (s.Destroying i) :=
  inferInstanceAs (Decidable (∃ d ∈ s.destroyers, d.1 = i ∧ d.2 ≠ .out))

instance : DecidableRel Settled := fun s a => by
  cases a <;> unfold Settled <;> infer_instance

/-! ### What the status says -/

structure Progress (s : KernelState) : Prop where
  initialized : s.status = .initialized → s.thread = .starting
  done : s.status = .done → s.thread = .stopped
  terminate : s.status = .terminate → s.terminated = true
  terminating : 0 < s.terminating → s.terminated = true
  past : s.thread.past = true → s.terminated = true

private theorem past_signal (pc : KernelPc) : pc.signal.past = pc.past := by
  cases pc <;> rfl

/-- `NodeTerminated` takes one entry out of the map, unless the kernel is done. -/
theorem exists_nodeTerminated_eq (s : KernelState) (key : Nat) : ∃ thread signal garbagenodes calls,
    s.nodeTerminated key = { s with
      thread := thread, nodecondSignal := signal, garbagenodes := garbagenodes, calls := calls,
      nodemap := if s.status = .done then s.nodemap else s.nodemap.erase key } ∧
    (thread = s.thread ∨ thread = s.thread.signal) := by
  have hsignal : s.thread.signal.signal = s.thread.signal := by cases s.thread <;> rfl
  unfold nodeTerminated
  split_ifs with hdone hmem
  · exact ⟨_, _, _, _, rfl, .inr rfl⟩
  · exact ⟨_, _, _, _, rfl, .inr hsignal⟩
  · refine ⟨s.thread, s.nodecondSignal, s.garbagenodes, s.calls, ?_, .inl rfl⟩
    rw [List.erase_of_not_mem hmem]

/-- The kernel thread leaves the nodes and the node map alone, and does not undo the status `DONE`. -/
theorem entryPoint_frame (hs : s.entryPoint = some s') : s'.nodes = s.nodes ∧ s'.nodemap = s.nodemap ∧
    s'.destroyers = s.destroyers ∧ s'.terminated = s.terminated ∧ s'.terminating = s.terminating ∧
    (s.status = .done → s'.status = .done) := by
  unfold entryPoint at hs
  cases hpc : s.thread <;> rw [hpc] at hs <;> dsimp only at hs
  case starting =>
    cases hs
    exact ⟨rfl, rfl, rfl, rfl, rfl, fun h => by simp [h]⟩
  case loop => split_ifs at hs <;> cases hs <;> exact ⟨rfl, rfl, rfl, rfl, rfl, id⟩
  case finalLoop => split_ifs at hs <;> cases hs <;> exact ⟨rfl, rfl, rfl, rfl, rfl, id⟩
  case post =>
    cases hs
    exact ⟨rfl, rfl, rfl, rfl, rfl, fun _ => rfl⟩
  case waiting | finalWaiting | stopped => cases hs
  all_goals
    cases hs
    exact ⟨rfl, rfl, rfl, rfl, rfl, id⟩

private theorem Progress.keep (h : Progress s) (h1 : s'.status = s.status)
    (h2 : s'.thread = s.thread ∨ s'.thread = s.thread.signal)
    (h3 : s.terminated = true → s'.terminated = true) (h4 : s'.terminating ≤ s.terminating ∨ s'.terminated = true) :
    Progress s' where
  initialized hs := by
    have := h.initialized (h1 ▸ hs)
    rcases h2 with h2 | h2
    · rw [h2, this]
    · rw [h2, this]
      rfl
  done hs := by
    have := h.done (h1 ▸ hs)
    rcases h2 with h2 | h2
    · rw [h2, this]
    · rw [h2, this]
      rfl
  terminate hs := h3 (h.terminate (h1 ▸ hs))
  terminating hs := h4.elim (fun h4 => h3 (h.terminating (Nat.lt_of_lt_of_le hs h4))) id
  past hs := by
    refine h3 (h.past ?_)
    rcases h2 with h2 | h2
    · exact h2 ▸ hs
    · rw [h2, past_signal] at hs
      exact hs

private theorem Progress.entryPoint (h : Progress s) (hs : s.entryPoint = some s') : Progress s' := by
  obtain ⟨-, -, -, hterm, hterming, -⟩ := entryPoint_frame hs
  have hpast (hp : s.thread.past = true) : s'.terminated = true := hterm.trans (h.past hp)
  -- most steps of the thread leave the status, which is neither the first nor the last one
  have hmove (h1 : s.status ≠ .initialized) (h2 : s'.status = s.status) (h3 : s.status ≠ .done)
      (h4 : s'.thread.past = true → s'.terminated = true) : Progress s' :=
    ⟨fun hi => absurd (h2 ▸ hi) h1, fun hd => absurd (h2 ▸ hd) h3, fun ht => hterm.trans (h.terminate (h2 ▸ ht)),
      fun ht => hterm.trans (h.terminating (hterming ▸ ht)), h4⟩
  have hinit (hne : s.thread ≠ .starting) : s.status ≠ .initialized := fun hi => hne (h.initialized hi)
  have hdone (hne : s.thread ≠ .stopped) : s.status ≠ .done := fun hd => hne (h.done hd)
  unfold KernelState.entryPoint at hs
  cases hpc : s.thread <;> rw [hpc] at hs hpast hinit hdone <;> dsimp only at hs
  case starting =>
    cases hs
    refine ⟨fun hi => ?_, fun hd => ?_, fun ht => ?_, h.terminating, fun hp => by cases hp⟩
    · dsimp only at hi
      split_ifs at hi with h0
      exact absurd hi h0
    · dsimp only at hd
      split_ifs at hd with h0
      exact absurd hd (hdone (by decide))
    · dsimp only at ht
      split_ifs at ht with h0
      exact h.terminate ht
  case signalStart =>
    cases hs
    refine hmove (hinit (by decide)) rfl (hdone (by decide)) fun hp => ?_
    dsimp only at hp
    split_ifs at hp with ht
    · exact ht
    · cases hp
  case loop =>
    split_ifs at hs with hst hsig <;> cases hs
    · exact hmove (hinit (by decide)) rfl (hdone (by decide)) fun hp => by cases hp
    · exact hmove (hinit (by decide)) rfl (hdone (by decide)) fun hp => by cases hp
    · refine hmove (hinit (by decide)) rfl (hdone (by decide)) fun _ => h.terminate ?_
      -- the loop is left because the status is `terminate`
      have h1 := hinit (by decide)
      have h2 := hdone (by decide)
      cases hc : s.status with
      | terminate => rfl
      | initialized => exact absurd hc h1
      | running => exact absurd hc hst
      | done => exact absurd hc h2
  case waiting | finalWaiting | stopped => cases hs
  case finalLoop =>
    split_ifs at hs <;> cases hs <;> exact hmove (hinit (by decide)) rfl (hdone (by decide)) fun _ => hpast rfl
  case post =>
    cases hs
    exact ⟨fun hi => (by cases hi), fun _ => rfl, fun ht => (by cases ht), h.terminating, fun _ => hpast rfl⟩
  case clearFirst | woken | clearing =>
    cases hs
    exact hmove (hinit (by decide)) rfl (hdone (by decide)) fun hp => by cases hp
  all_goals
    cases hs
    exact hmove (hinit (by decide)) rfl (hdone (by decide)) fun _ => hpast rfl

private theorem Progress.nodeTerminated (h : Progress s) (key : Nat) : Progress (s.nodeTerminated key) := by
  obtain ⟨thread, signal, garbagenodes, calls, heq, hthread⟩ := s.exists_nodeTerminated_eq key
  rw [heq]
  exact h.keep rfl hthread id (.inl (Nat.le_refl _))

private theorem Progress.next (h : Progress s) (hs : kernelNext s a = some s') : Progress s' := by
  -- most actions leave the status and the thread as they are
  have hk {t : KernelState} (h : Progress t) {t' : KernelState} (h1 : t'.status = t.status) (h2 : t'.thread = t.thread)
      (h3 : t'.terminated = t.terminated) (h4 : t'.terminating = t.terminating) : Progress t' :=
    h.keep h1 (.inl h2) (fun ht => h3.trans ht) (.inl h4.le)
  cases a with
  | thread => exact h.entryPoint hs
  | createNode =>
    obtain ⟨-, ⟨⟩⟩ := Option.ite_none_left_eq_some.1 hs
    exact hk h rfl rfl rfl rfl
  | internalCreateNode i factory =>
    obtain ⟨-, hs⟩ := Option.ite_none_right_eq_some.1 hs
    split_ifs at hs <;> cases hs <;> exact hk h rfl rfl rfl rfl
  | createExternal =>
    obtain ⟨-, ⟨⟩⟩ := Option.ite_none_left_eq_some.1 hs
    exact hk h rfl rfl rfl rfl
  | endpoint i =>
    have hs : s.endpoint i = some s' := hs
    unfold KernelState.endpoint at hs
    split at hs <;> cases hs <;> exact hk h rfl rfl rfl rfl
  | node i =>
    have hs : s.node i = some s' := hs
    unfold KernelState.node at hs
    split at hs <;> cases hs
    · exact hk h rfl rfl rfl rfl
    · exact hk h rfl rfl rfl rfl
    · exact hk h rfl rfl rfl rfl
    · exact hk (h.nodeTerminated i) rfl rfl rfl rfl
  | destroy i =>
    obtain ⟨-, ⟨⟩⟩ := Option.ite_none_left_eq_some.1 hs
    exact hk h rfl rfl rfl rfl
  | destroyer j =>
    have hs : s.destroyer j = some s' := hs
    unfold KernelState.destroyer at hs
    split at hs <;> cases hs
    · exact hk h rfl rfl rfl rfl
    · exact hk h rfl rfl rfl rfl
    · exact hk (h.nodeTerminated _) rfl rfl rfl rfl
  | terminate =>
    cases hs
    exact h.keep rfl (.inl rfl) (fun _ => rfl) (.inr rfl)
  | notifyTerminate =>
    obtain ⟨hpos, ⟨⟩⟩ := Option.ite_none_left_eq_some.1 hs
    have hterm := h.terminating (Nat.pos_of_ne_zero hpos)
    unfold KernelState.notifyTerminate
    split_ifs
    · exact h.keep rfl (.inl rfl) id (.inr hterm)
    · exact ⟨fun hi => (by cases hi), fun hd => (by cases hd), fun _ => hterm, fun _ => hterm, h.past⟩
    · exact h.keep rfl (.inl rfl) id (.inr hterm)
  | sendWakeup =>
    obtain ⟨-, ⟨⟩⟩ := Option.ite_none_left_eq_some.1 hs
    exact h.keep rfl (.inr rfl) id (.inl (Nat.le_refl _))

private theorem progress_of_reachableBy {ok : KernelState → KernelAct → Prop} (h : kernel.ReachableBy ok s) :
    Progress s := by
  refine h.invariant ?_ ?_
  · rintro s rfl
    exact ⟨fun _ => rfl, fun h => (by cases h), fun h => (by cases h), fun h => absurd h (by decide),
      fun h => by cases h⟩
  · intro s a t hs _ hn
    exact hs.next hn

/-! ### What the node map holds -/

/-- Every entry of the node map is that of a node that has not been taken out.  In the runs that meet the condition
(`R`), every
external endpoint in the map of a terminated context is being destroyed. -/
structure Listed (R : Prop) (s : KernelState) : Prop where
  nodup : s.nodemap.Nodup
  inMap : ∀ i ∈ s.nodemap, ∃ pc, s.nodes[i]? = some pc ∧
    (pc.inMap = true ∨ s.status = .done ∧ pc = .real .finished)
  settled : R → s.status ≠ .done → s.terminated = true →
    KernelNode.external .keyed ∉ s.nodes ∧ ∀ i ∈ s.nodemap, s.isPurePseudo i = true → s.Destroying i

private theorem Listed.keep (h : Listed R s) (h1 : s'.nodes = s.nodes) (h2 : s'.nodemap = s.nodemap)
    (h3 : s'.destroyers = s.destroyers) (h4 : s'.terminated = s.terminated)
    (h5 : s.status = .done → s'.status = .done) : Listed R s' where
  nodup := by rw [h2]; exact h.nodup
  inMap i hi := by
    rw [h2] at hi
    rw [h1]
    obtain ⟨pc, hpc, hin⟩ := h.inMap i hi
    exact ⟨pc, hpc, hin.imp_right fun hd => ⟨h5 hd.1, hd.2⟩⟩
  settled hr hd ht := by
    unfold isPurePseudo Destroying
    rw [h1, h2, h3]
    exact h.settled hr (fun hd' => hd (h5 hd')) (h4 ▸ ht)

/-- A node that has no entry is not in the map. -/
theorem Listed.not_mem (h : Listed R s) {pc : KernelNode} (hpc : s.nodes[i]? = some pc) (h1 : pc.inMap = false)
    (h2 : pc ≠ .real .finished) : i ∉ s.nodemap := by
  intro hi
  obtain ⟨pc', hpc', hin⟩ := h.inMap i hi
  rw [hpc] at hpc'
  cases hpc'
  rcases hin with hin | hin
  · rw [h1] at hin
    cases hin
  · exact h2 hin.2

private theorem isPurePseudo_setNode {pc p : KernelNode} (hpc : s.nodes[i]? = some pc)
    (hkind : (∃ e, p = .external e) → ∃ e, pc = .external e) {j : Nat}
    (hj : (s.setNode i p).isPurePseudo j = true) : s.isPurePseudo j = true := by
  unfold isPurePseudo setNode at *
  dsimp only at hj
  by_cases hij : i = j
  · subst hij
    rw [List.getElem?_set_self (List.getElem?_eq_some_iff.1 hpc).1] at hj
    rw [hpc]
    cases p with
    | real => cases hj
    | external e =>
      obtain ⟨e', rfl⟩ := hkind ⟨e, rfl⟩
      rfl
  · rwa [List.getElem?_set_ne hij] at hj

/-- A node goes on, and keeps its place in the map or outside it. -/
theorem Listed.setNode (h : Listed R s) {pc p : KernelNode} (hpc : s.nodes[i]? = some pc)
    (hin : i ∈ s.nodemap → p.inMap = true ∨ s.status = .done ∧ p = .real .finished)
    (hkind : (∃ e, p = .external e) → ∃ e, pc = .external e) (hkeyed : p ≠ .external .keyed) :
    Listed R (s.setNode i p) where
  nodup := h.nodup
  inMap j hj := by
    show ∃ x, (s.nodes.set i p)[j]? = some x ∧ _
    by_cases hij : i = j
    · subst hij
      rw [List.getElem?_set_self (List.getElem?_eq_some_iff.1 hpc).1]
      exact ⟨p, rfl, hin hj⟩
    · rw [List.getElem?_set_ne hij]
      exact h.inMap j hj
  settled hr hd ht := by
    obtain ⟨h1, h2⟩ := h.settled hr hd ht
    refine ⟨fun hmem => ?_, fun j hj hp => h2 j hj (isPurePseudo_setNode hpc hkind hp)⟩
    rcases List.mem_or_eq_of_mem_set hmem with hmem | heq
    · exact h1 hmem
    · exact hkeyed heq.symm

/-- An entry is made for a node that had none. -/
theorem Listed.insert (h : Listed R s) {pc' : KernelNode} (hpc : s.nodes[i]? = some pc') (hi : i ∉ s.nodemap)
    (hin : pc'.inMap = true) (hext : R → s.status ≠ .done → s.terminated = true → s.isPurePseudo i = false) :
    Listed R { s with nodemap := i :: s.nodemap } where
  nodup := List.nodup_cons.2 ⟨hi, h.nodup⟩
  inMap j hj := by
    rcases List.mem_cons.1 hj with rfl | hj
    · exact ⟨pc', hpc, .inl hin⟩
    · exact h.inMap j hj
  settled hr hd ht := by
    obtain ⟨h1, h2⟩ := h.settled hr hd ht
    refine ⟨h1, fun j hj hp => ?_⟩
    rcases List.mem_cons.1 hj with rfl | hj
    · rw [show s.isPurePseudo j = true from hp] at hext
      cases hext hr hd ht
    · exact h2 j hj hp

private theorem Listed.nodeTerminated (h : Listed R s) (key : Nat) : Listed R (s.nodeTerminated key) := by
  obtain ⟨thread, signal, garbagenodes, calls, heq, -⟩ := s.exists_nodeTerminated_eq key
  have hsub {j : Nat} (hj : j ∈ if s.status = .done then s.nodemap else s.nodemap.erase key) : j ∈ s.nodemap := by
    split_ifs at hj
    · exact hj
    · exact List.mem_of_mem_erase hj
  rw [heq]
  refine ⟨?_, fun j hj => h.inMap j (hsub hj), fun hr hd ht => ?_⟩
  · dsimp only
    split_ifs
    · exact h.nodup
    · exact h.nodup.erase key
  · obtain ⟨h1, h2⟩ := h.settled hr hd ht
    exact ⟨h1, fun j hj hp => h2 j (hsub hj) hp⟩

private theorem not_mem_nodeTerminated (h : Listed R s) (key : Nat) (hd : s.status ≠ .done) :
    key ∉ (s.nodeTerminated key).nodemap := by
  obtain ⟨thread, signal, garbagenodes, calls, heq, -⟩ := s.exists_nodeTerminated_eq key
  rw [heq]
  dsimp only
  rw [if_neg hd]
  exact fun hmem => (h.nodup.mem_erase_iff.1 hmem).1 rfl

/-- A thread in `DestroyExternalEndpoint` goes on. -/
theorem Listed.setDestroyer (h : Listed R s) {pc p : DestroyerPc} (hpc : s.destroyers[j]? = some (i, pc))
    (hout : p = .out → s.status ≠ .done → i ∈ s.nodemap → s.isPurePseudo i = false) :
    Listed R (s.setDestroyer j i p) := by
  refine ⟨h.nodup, h.inMap, fun hr hd ht => ⟨(h.settled hr hd ht).1, fun k hk hp => ?_⟩⟩
  obtain ⟨d, hmem, hdk, hdne⟩ := (h.settled hr hd ht).2 k hk hp
  obtain ⟨m, hm⟩ := List.mem_iff_getElem?.1 hmem
  by_cases hjm : j = m
  · subst hjm
    rw [hpc] at hm
    cases hm
    have hik : i = k := hdk
    subst hik
    have hlt := (List.getElem?_eq_some_iff.1 hpc).1
    refine ⟨(i, p), List.mem_iff_getElem?.2 ⟨j, List.getElem?_set_self hlt⟩, rfl, fun he => ?_⟩
    rw [show s.isPurePseudo i = true from hp] at hout
    cases hout he hd hk
  · exact ⟨d, List.mem_iff_getElem?.2 ⟨m, (List.getElem?_set_ne hjm).trans hm⟩, hdk, hdne⟩

private theorem Listed.append (h : Listed R s) (ht : s.terminated = false) (pc : KernelNode) :
    Listed R { s with nodes := s.nodes ++ [pc] } where
  nodup := h.nodup
  inMap i hi := by
    obtain ⟨x, hx, hin⟩ := h.inMap i hi
    refine ⟨x, ?_, hin⟩
    show (s.nodes ++ [pc])[i]? = some x
    rw [List.getElem?_append_left (List.getElem?_eq_some_iff.1 hx).1]
    exact hx
  settled _ _ ht' := by
    rw [show s.terminated = true from ht'] at ht
    cases ht

private theorem Listed.next (h : Listed R s) (hok : R → s.Settled a) (hs : kernelNext s a = some s') : Listed R s' := by
  cases a with
  | thread =>
    obtain ⟨h1, h2, h3, h4, -, h5⟩ := entryPoint_frame hs
    exact h.keep h1 h2 h3 h4 h5
  | createNode =>
    obtain ⟨ht, ⟨⟩⟩ := Option.ite_none_left_eq_some.1 hs
    exact h.append (eq_false_of_ne_true ht) _
  | internalCreateNode i factory =>
    obtain ⟨hpc, hs⟩ := Option.ite_none_right_eq_some.1 hs
    have hi := h.not_mem hpc rfl (by simp)
    have hlt := (List.getElem?_eq_some_iff.1 hpc).1
    split_ifs at hs <;> cases hs
    · have hset := h.setNode (p := .real .spawned) hpc (fun hm => absurd hm hi) (by simp) (by simp)
      refine hset.insert (List.getElem?_set_self hlt) hi rfl fun _ _ _ => ?_
      unfold isPurePseudo KernelState.setNode
      dsimp only
      rw [List.getElem?_set_self hlt]
    · exact h.setNode hpc (fun hm => absurd hm hi) (by simp) (by simp)
  | createExternal =>
    obtain ⟨ht, ⟨⟩⟩ := Option.ite_none_left_eq_some.1 hs
    exact h.append (eq_false_of_ne_true ht) _
  | endpoint i =>
    have hs : s.endpoint i = some s' := hs
    unfold KernelState.endpoint at hs
    split at hs <;> cases hs
    · rename_i hpc
      have hi := h.not_mem hpc rfl (by simp)
      have hlt := (List.getElem?_eq_some_iff.1 hpc).1
      have hset := h.setNode (p := .external .inserted) hpc (fun hm => absurd hm hi) (fun _ => ⟨_, rfl⟩) (by simp)
      -- after the termination no endpoint is being created
      refine hset.insert (List.getElem?_set_self hlt) hi rfl fun hr hd ht => ?_
      exact absurd (List.mem_of_getElem? hpc) (h.settled hr hd ht).1
    · rename_i hpc
      refine h.setNode hpc (fun _ => .inl ?_) (fun _ => ⟨_, rfl⟩) (by split_ifs <;> simp)
      split_ifs <;> rfl
  | node i =>
    have hs : s.node i = some s' := hs
    unfold KernelState.node at hs
    split at hs <;> cases hs
    · rename_i hpc
      refine h.setNode hpc (fun _ => .inl ?_) (by simp) (by simp)
      split_ifs <;> rfl
    · rename_i hpc
      exact h.setNode hpc (fun _ => .inl rfl) (by simp) (by simp)
    · rename_i hpc
      have hset := h.setNode (p := .real .ended) hpc (fun _ => .inl rfl) (by simp) (by simp)
      exact hset.keep rfl rfl rfl rfl id
    · rename_i hpc
      have hterm := h.nodeTerminated i
      obtain ⟨thread, signal, garbagenodes, calls, heq, -⟩ := s.exists_nodeTerminated_eq i
      have hnodes : (s.nodeTerminated i).nodes = s.nodes := by rw [heq]
      have hstatus : (s.nodeTerminated i).status = s.status := by rw [heq]
      refine hterm.setNode (hnodes ▸ hpc) (fun hm => .inr ⟨?_, rfl⟩) (by simp) (by simp)
      by_contra hd
      exact not_mem_nodeTerminated h i (hstatus ▸ hd) hm
  | destroy i =>
    obtain ⟨-, ⟨⟩⟩ := Option.ite_none_left_eq_some.1 hs
    refine ⟨h.nodup, h.inMap, fun hr hd ht => ⟨(h.settled hr hd ht).1, fun k hk hp => ?_⟩⟩
    obtain ⟨d, hmem, hd'⟩ := (h.settled hr hd ht).2 k hk hp
    exact ⟨d, List.mem_append_left _ hmem, hd'⟩
  | destroyer j =>
    have hs : s.destroyer j = some s' := hs
    unfold KernelState.destroyer at hs
    split at hs <;> cases hs
    · rename_i i hpc
      refine h.setDestroyer hpc fun hout _ hi => ?_
      split_ifs at hout with hfound
      by_contra hp
      exact hfound ⟨hi, eq_true_of_ne_false hp⟩
    · rename_i i hpc
      have hset := h.setDestroyer (p := .ended) hpc (fun hout => by cases hout)
      exact hset.keep rfl rfl rfl rfl id
    · rename_i i hpc
      have hterm := h.nodeTerminated i
      obtain ⟨thread, signal, garbagenodes, calls, heq, -⟩ := s.exists_nodeTerminated_eq i
      have hdes : (s.nodeTerminated i).destroyers = s.destroyers := by rw [heq]
      have hstatus : (s.nodeTerminated i).status = s.status := by rw [heq]
      refine hterm.setDestroyer (hdes ▸ hpc) fun _ hd hi => ?_
      exact absurd hi (not_mem_nodeTerminated h i (hstatus ▸ hd))
  | terminate =>
    cases hs
    refine ⟨h.nodup, h.inMap, fun hr hd _ => ?_⟩
    cases ht : s.terminated with
    | true => exact h.settled hr hd ht
    | false => exact hok hr ht
  | notifyTerminate =>
    obtain ⟨-, ⟨⟩⟩ := Option.ite_none_left_eq_some.1 hs
    unfold KernelState.notifyTerminate
    split_ifs with h1 h2
    · exact h.keep rfl rfl rfl rfl id
    · exact h.keep rfl rfl rfl rfl fun hd => by rw [h2] at hd; cases hd
    · exact h.keep rfl rfl rfl rfl id
  | sendWakeup =>
    obtain ⟨-, ⟨⟩⟩ := Option.ite_none_left_eq_some.1 hs
    exact h.keep rfl rfl rfl rfl id

private theorem listed_of_reachableBy {ok : KernelState → KernelAct → Prop} (hok : ∀ s a, ok s a → R → s.Settled a)
    (h : kernel.ReachableBy ok s) : Listed R s := by
  refine h.invariant ?_ ?_
  · rintro s rfl
    exact ⟨List.nodup_nil, fun i hi => absurd hi List.not_mem_nil, fun _ _ ht => by cases ht⟩
  · intro s a t hs ha hn
    exact hs.next (hok s a ha) hn

private theorem Listed.anyRun (h : Listed R s) : Listed False s := ⟨h.nodup, h.inMap, False.elim⟩

/-! ### Taking an endpoint out of the map -/

theorem Erasable.of_step (hs : kernelNext s a = some s') (h : s'.Erasable i) : s.Erasable i := by
  obtain ⟨t, ht, hi⟩ := h
  have hstep : kernel.LeadsBy (fun _ _ => True) s s' := .step .refl trivial hs
  exact ⟨t, hstep.trans ht, hi⟩

private theorem erasable_of_ended (h : Listed False s) (hd : s.status ≠ .done) (hj : s.destroyers[j]? = some (i, .ended)) :
    s.Erasable i := by
  have hstep : kernelNext s (.destroyer j) = some ((s.nodeTerminated i).setDestroyer j i .out) := by
    rw [kernelNext, destroyer, hj]
  exact .of_step hstep ⟨_, .refl, not_mem_nodeTerminated h i hd⟩

private theorem erasable_of_found (h : Listed False s) (hd : s.status ≠ .done) (hj : s.destroyers[j]? = some (i, .found)) :
    s.Erasable i := by
  have hlt := (List.getElem?_eq_some_iff.1 hj).1
  have hstep : kernelNext s (.destroyer j) = some { s.setDestroyer j i .ended with calls := s.calls + 1 } := by
    rw [kernelNext, destroyer, hj]
  have hnext : Listed False { s.setDestroyer j i .ended with calls := s.calls + 1 } :=
    h.next (a := .destroyer j) False.elim hstep
  exact .of_step hstep (erasable_of_ended hnext hd (List.getElem?_set_self hlt))

/-- A `DestroyExternalEndpoint` that is under way takes the endpoint out of the map. -/
theorem erasable_of_destroying (h : Listed False s) (hd : s.status ≠ .done) (hi : i ∈ s.nodemap)
    (hp : s.isPurePseudo i = true) (hdes : s.Destroying i) : s.Erasable i := by
  obtain ⟨⟨k, pc⟩, hmem, rfl, hout⟩ := hdes
  obtain ⟨j, hj⟩ := List.mem_iff_getElem?.1 hmem
  cases pc with
  | looking =>
    have hlt := (List.getElem?_eq_some_iff.1 hj).1
    have hstep : kernelNext s (.destroyer j) = some (s.setDestroyer j k .found) := by
      rw [kernelNext, destroyer, hj]
      dsimp only
      rw [if_pos ⟨hi, hp⟩]
    have hnext : Listed False (s.setDestroyer j k .found) := h.next (a := .destroyer j) False.elim hstep
    exact .of_step hstep (erasable_of_found hnext hd (List.getElem?_set_self hlt))
  | found => exact erasable_of_found h hd hj
  | ended => exact erasable_of_ended h hd hj
  | out => exact absurd rfl hout

/-- An endpoint in the map of a terminated context, which nothing is destroying. -/
structure Left (s : KernelState) (i : Nat) : Prop where
  terminated : s.terminated = true
  mem : i ∈ s.nodemap
  external : ∃ e, s.nodes[i]? = some (.external e)
  destroying : ¬ s.Destroying i

private theorem Left.setNode (h : Left s i) {k : Nat} {pc p : KernelNode} (hpc : s.nodes[k]? = some pc)
    (hkind : (∃ e, pc = .external e) → ∃ e, p = .external e) : Left (s.setNode k p) i := by
  refine ⟨h.terminated, h.mem, ?_, h.destroying⟩
  show ∃ e, (s.nodes.set k p)[i]? = some (.external e)
  by_cases hik : k = i
  · subst hik
    rw [List.getElem?_set_self (List.getElem?_eq_some_iff.1 hpc).1]
    obtain ⟨e, he⟩ := h.external
    rw [hpc] at he
    obtain ⟨e', rfl⟩ := hkind ⟨e, Option.some.inj he⟩
    exact ⟨e', rfl⟩
  · rw [List.getElem?_set_ne hik]
    exact h.external

private theorem Left.nodeTerminated (h : Left s i) {k : Nat} (hk : k ≠ i) : Left (s.nodeTerminated k) i := by
  obtain ⟨thread, signal, garbagenodes, calls, heq, -⟩ := s.exists_nodeTerminated_eq k
  rw [heq]
  refine ⟨h.terminated, ?_, h.external, h.destroying⟩
  dsimp only
  split_ifs
  · exact h.mem
  · exact (List.mem_erase_of_ne hk.symm).2 h.mem

private theorem Left.setDestroyer (h : Left s i) {k : Nat} {p : DestroyerPc} (hk : k ≠ i) :
    Left (s.setDestroyer j k p) i := by
  refine ⟨h.terminated, h.mem, h.external, ?_⟩
  rintro ⟨d, hmem, hdi, hout⟩
  rcases List.mem_or_eq_of_mem_set hmem with hmem | rfl
  · exact h.destroying ⟨d, hmem, hdi, hout⟩
  · exact hk hdi

/-- Such an endpoint stays in the map. -/
theorem Left.next (h : Left s i) (hs : kernelNext s a = some s') : Left s' i := by
  obtain ⟨e, he⟩ := h.external
  cases a with
  | thread =>
    obtain ⟨h1, h2, h3, h4, -, -⟩ := entryPoint_frame hs
    refine ⟨h4.trans h.terminated, h2 ▸ h.mem, h1 ▸ h.external, ?_⟩
    unfold Destroying
    rw [h3]
    exact h.destroying
  | createNode =>
    -- nothing is created after the termination
    obtain ⟨ht, -⟩ := Option.ite_none_left_eq_some.1 hs
    exact absurd h.terminated ht
  | internalCreateNode k factory =>
    obtain ⟨hpc, hs⟩ := Option.ite_none_right_eq_some.1 hs
    have hset (pc' : KernelNode) : Left (s.setNode k pc') i := h.setNode hpc (by simp)
    split_ifs at hs <;> cases hs
    · have hset := hset (.real .spawned)
      exact ⟨hset.terminated, List.mem_cons_of_mem _ hset.mem, hset.external, hset.destroying⟩
    · exact hset _
  | createExternal =>
    obtain ⟨ht, -⟩ := Option.ite_none_left_eq_some.1 hs
    exact absurd h.terminated ht
  | endpoint k =>
    have hs : s.endpoint k = some s' := hs
    unfold KernelState.endpoint at hs
    split at hs <;> cases hs
    · rename_i hpc
      have hset := h.setNode (p := .external .inserted) hpc fun _ => ⟨_, rfl⟩
      exact ⟨hset.terminated, List.mem_cons_of_mem _ hset.mem, hset.external, hset.destroying⟩
    · rename_i hpc
      exact h.setNode hpc fun _ => ⟨_, rfl⟩
  | node k =>
    have hs : s.node k = some s' := hs
    unfold KernelState.node at hs
    split at hs <;> cases hs
    · rename_i hpc
      exact h.setNode hpc (by simp)
    · rename_i hpc
      exact h.setNode hpc (by simp)
    · rename_i hpc
      have hset := h.setNode (p := .real .ended) hpc (by simp)
      exact ⟨hset.terminated, hset.mem, hset.external, hset.destroying⟩
    · rename_i hpc
      have hk : k ≠ i := by
        rintro rfl
        rw [hpc] at he
        cases he
      obtain ⟨thread, signal, garbagenodes, calls, heq, -⟩ := s.exists_nodeTerminated_eq k
      have hnodes : (s.nodeTerminated k).nodes = s.nodes := by rw [heq]
      exact (h.nodeTerminated hk).setNode (hnodes ▸ hpc) (by simp)
  | destroy k =>
    obtain ⟨ht, -⟩ := Option.ite_none_left_eq_some.1 hs
    exact absurd (.inl h.terminated) ht
  | destroyer j =>
    have hs : s.destroyer j = some s' := hs
    -- another endpoint is being destroyed, as this one is not
    have hne {k : Nat} {pc : DestroyerPc} (hpc : s.destroyers[j]? = some (k, pc)) (hout : pc ≠ .out) : k ≠ i := by
      rintro rfl
      exact h.destroying ⟨_, List.mem_of_getElem? hpc, rfl, hout⟩
    unfold KernelState.destroyer at hs
    split at hs <;> cases hs
    · rename_i k hpc
      exact h.setDestroyer (hne hpc (by decide))
    · rename_i k hpc
      have hset := h.setDestroyer (j := j) (p := .ended) (hne hpc (by decide))
      exact ⟨hset.terminated, hset.mem, hset.external, hset.destroying⟩
    · rename_i k hpc
      have hk := hne hpc (by decide)
      exact (h.nodeTerminated hk).setDestroyer hk
  | terminate =>
    cases hs
    exact ⟨rfl, h.mem, h.external, h.destroying⟩
  | notifyTerminate =>
    obtain ⟨-, ⟨⟩⟩ := Option.ite_none_left_eq_some.1 hs
    unfold KernelState.notifyTerminate
    split_ifs <;> exact ⟨h.terminated, h.mem, h.external, h.destroying⟩
  | sendWakeup =>
    obtain ⟨-, ⟨⟩⟩ := Option.ite_none_left_eq_some.1 hs
    exact ⟨h.terminated, h.mem, h.external, h.destroying⟩

private theorem not_erasable_of_left (h : Left s i) : ¬ s.Erasable i := by
  rintro ⟨t, ht, hi⟩
  have hleft : Left t i := ht.invariant (I := fun s => Left s i) (fun s a t hs _ hn => hs.next hn) h
  exact hi hleft.mem

end KernelState

open KernelState

/-- As long as the context is not terminated while an external endpoint is being created, or is in the node map with
nobody destroying it, a kernel that waits for its nodes never gets stuck.  In every run, an external endpoint in the map of a
terminated context can be taken out exactly when a `DestroyExternalEndpoint` is under way. -/
theorem kernel_not_stuck {s : KernelState} : (kernel.ReachableBy Settled s → ¬ s.Stuck) ∧
    (kernel.Reachable s → ∀ i ∈ s.nodemap, s.isPurePseudo i = true → s.terminated = true → s.status ≠ .done →
      (s.Erasable i ↔ s.Destroying i)) := by
  refine ⟨fun h => ?_, fun h i hi hp ht hd => ⟨fun he => ?_, ?_⟩⟩
  · have hl : Listed True s := listed_of_reachableBy (fun _ _ ha _ => ha) h
    have hpr := progress_of_reachableBy h
    rintro ⟨hw, hruns, i, hi, hne⟩
    have hd : s.status ≠ .done := by
      intro hd
      rw [hpr.done hd] at hw
      cases hw
    have ht : s.terminated = true := by
      refine hpr.past ?_
      cases hpc : s.thread <;> rw [hpc] at hw <;> first | rfl | cases hw
    -- the threads of the nodes have ended, so the entry is that of an external endpoint
    have hp : s.isPurePseudo i = true := by
      obtain ⟨pc, hpc, hin⟩ := hl.inMap i hi
      have hrun := hruns pc (List.mem_of_getElem? hpc)
      rw [isPurePseudo, hpc]
      cases pc with
      | external e => rfl
      | real e =>
        rcases hin with hin | hin
        · have heq : (KernelNode.real e).inMap = (KernelNode.real e).runs := by cases e <;> rfl
          rw [heq, hrun] at hin
          cases hin
        · exact absurd hin.1 hd
    exact hne (erasable_of_destroying hl.anyRun hd hi hp ((hl.settled trivial hd ht).2 i hi hp))
  · by_contra hdes
    have hext : ∃ e, s.nodes[i]? = some (.external e) := by
      unfold isPurePseudo at hp
      split at hp
      · rename_i e he
        exact ⟨e, he⟩
      · cases hp
    exact not_erasable_of_left ⟨ht, hi, hext, hdes⟩ he
  · exact erasable_of_destroying (listed_of_reachableBy (fun _ _ _ => False.elim) h) hd hi hp

/-- A kernel that is terminated while an endpoint is being destroyed, and waits for it; and one with an endpoint that nothing
takes out. -/
theorem kernel_not_stuck_destroy :
    (∃ s, kernel.ReachableBy Settled s ∧ s.thread = .finalWaiting ∧ s.nodemap = [0] ∧ ¬ s.Stuck) ∧
      ∃ s, kernel.Reachable s ∧ s.thread = .finalWaiting ∧ s.nodemap = [1, 0] ∧ s.Erasable 0 ∧ ¬ s.Erasable 1 := by
  constructor
  · have hrun : ((kernel.runBy Settled kernelStart
        [.thread, .thread, .thread, .thread, .createExternal, .endpoint 0, .endpoint 0, .destroy 0, .terminate,
          .notifyTerminate, .sendWakeup, .thread, .thread, .thread, .thread, .thread, .thread]).any
        fun s => decide (s.thread = .finalWaiting ∧ s.nodemap = [0])) = true := by
      decide +kernel
    obtain ⟨s, hs, hp⟩ := Machine.exists_reachableBy (M := kernel) rfl hrun
    obtain ⟨h1, h2⟩ := of_decide_eq_true hp
    exact ⟨s, hs, h1, h2, kernel_not_stuck.1 hs⟩
  · have hrun : ((kernel.runBy (fun _ _ => True) kernelStart
        [.thread, .thread, .thread, .thread, .createExternal, .endpoint 0, .endpoint 0, .createExternal, .endpoint 1,
          .endpoint 1, .destroy 0, .terminate, .notifyTerminate, .sendWakeup, .thread, .thread, .thread, .thread, .thread,
          .thread]).any
        fun s => decide (s.thread = .finalWaiting ∧ s.nodemap = [1, 0] ∧ s.terminated = true ∧ s.status ≠ .done ∧
          s.isPurePseudo 0 = true ∧ s.isPurePseudo 1 = true ∧ s.Destroying 0 ∧ ¬ s.Destroying 1)) = true := by
      decide +kernel
    obtain ⟨s, hs, hp⟩ := Machine.exists_reachableBy (M := kernel) rfl hrun
    obtain ⟨h1, h2, ht, hd, hzero, hone, hdes, hno⟩ := of_decide_eq_true hp
    exact ⟨s, hs, h1, h2, (kernel_not_stuck.2 hs 0 (by simp [h2]) hzero ht hd).2 hdes,
      fun he => hno ((kernel_not_stuck.2 hs 1 (by simp [h2]) hone ht hd).1 he)⟩

/-- A kernel that is terminated before its external endpoint is destroyed waits for ever. -/
theorem not_forall_kernel_not_stuck : ¬ ∀ s, kernel.Reachable s → ¬ s.Stuck := by
  have hrun : ((kernel.runBy (fun _ _ => True) kernelStart
      [.thread, .thread, .thread, .thread, .createExternal, .endpoint 0, .endpoint 0, .terminate, .notifyTerminate,
        .sendWakeup, .thread, .thread, .thread, .thread, .thread, .thread]).any
      fun s => decide (s.thread = .finalWaiting ∧ s.terminated = true ∧ 0 ∈ s.nodemap ∧
        s.nodes = [.external .created] ∧ ¬ s.Destroying 0)) = true := by
    decide +kernel
  obtain ⟨s, hs, hp⟩ := Machine.exists_reachableBy (M := kernel) rfl hrun
  obtain ⟨h1, h2, h3, h4, h5⟩ := of_decide_eq_true hp
  intro h
  refine h s hs ⟨by rw [h1]; rfl, fun pc hpc => ?_, 0, h3, ?_⟩
  · rw [h4] at hpc
    rw [List.mem_singleton.1 hpc]
    rfl
  · exact not_erasable_of_left ⟨h2, h3, ⟨.created, by rw [h4]; rfl⟩, h5⟩

end ProcessNetwork
