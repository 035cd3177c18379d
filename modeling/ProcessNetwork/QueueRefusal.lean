import ProcessNetwork.QueueCreation

/-!
# Calls of CreateQueue that are refused

A port that has a queue refuses another one after the queue has been put on the list of the node, and after the ports have
been connected in the context.  So a refused call always leaves a trace (`refusal_createQueue`), and a call that connects a
reader which another writer is connected to leaves that writer with a reader that is not its own
(`failed_create_traceless_iff`).
-/

namespace ProcessNetwork.Registry

open Exceptions

namespace Kernels

open LocalContext (Fresh Extends)

variable {side : Side} {kernel node q : Nat} {attr : SimpleQueueAttr}

/-! ### Ports that have a queue -/

/-- The entry of `readermap` or `writermap` of the node. -/
def mapAt (s : Kernels) (side : Side) (kernel node key : Key) : Option Nat :=
  (s.nodemap kernel node).bind fun pnode => pnode.map side key

/-- The `readerlist` or the `writerlist` of the node. -/
def listAt (s : Kernels) (side : Side) (kernel node : Key) : Option (List Nat) :=
  (s.nodemap kernel node).map fun pnode => pnode.list side

/-- The port that the attributes name on this side has a queue. -/
def Taken (s : Kernels) (side : Side) (kernel : Key) (attr : SimpleQueueAttr) : Prop :=
  (s.mapAt side kernel (attr.nodekey side) (attr.portkey side)).isSome

/-- A call from the kernel `kernelkey`, for nodes on `readerkernel` and `writerkernel`, comes to a port that has a queue. -/
def OccupiedAt (s : Kernels) (kernelkey : Key) (attr : SimpleQueueAttr) (readerkernel writerkernel : Key) : Prop :=
  if readerkernel = writerkernel then
    (readerkernel = kernelkey ∨ s.useremote kernelkey ∧ s.useremote readerkernel) ∧
      (s.Taken .writer readerkernel attr ∨ s.Taken .reader readerkernel attr)
  else if readerkernel = kernelkey then
    s.useremote kernelkey ∧
      (s.Taken .reader kernelkey attr ∨ s.useremote writerkernel ∧ s.Taken .writer writerkernel attr)
  else if writerkernel = kernelkey then
    s.useremote kernelkey ∧
      (s.Taken .writer kernelkey attr ∨ s.useremote readerkernel ∧ s.Taken .reader readerkernel attr)
  else s.useremote kernelkey ∧ s.useremote writerkernel ∧
    (s.Taken .writer writerkernel attr ∨ s.useremote readerkernel ∧ s.Taken .reader readerkernel attr)

def kernelOf (s : Kernels) (node : Key) : Key := ((s.context.nodemap node).map NodeInfo.kernelkey).getD 0

/-- The call comes to a port that has a queue. -/
def Occupied (s : Kernels) (kernelkey : Key) (attr : SimpleQueueAttr) : Prop :=
  s.OccupiedAt kernelkey attr (s.kernelOf (attr.nodekey .reader)) (s.kernelOf (attr.nodekey .writer))

/-- The call throws because a port has a queue already. -/
def Refused (x : Proc Unit) (s : Kernels) : Prop := ∃ side t, x s = .error (.assertion (alreadyExists side)) t

/-- `t` is `s` after a queue has been put on the list of the node, whether or not it got into the map. -/
structure Made (side : Side) (kernel node : Key) (s t : Kernels) : Prop where
  list : ∃ l q, s.listAt side kernel node = some l ∧ t.listAt side kernel node = some (l ++ [q])
  list_other : ∀ k n, t.listAt side.other k n = s.listAt side.other k n
  map_other : ∀ k n key, t.mapAt side.other k n key = s.mapAt side.other k n key
  queues : ∀ (i : Nat) (queue : Queue), s.queues[i]? = some queue →
    ∃ queue' : Queue, t.queues[i]? = some queue' ∧ queue'.portkey = queue.portkey
  context : t.context = s.context
  useremote : t.useremote = s.useremote

private theorem isSome_listAt (s : Kernels) (side : Side) (kernel node : Key) :
    (s.listAt side kernel node).isSome = (s.nodemap kernel node).isSome := Option.isSome_map

private theorem setNode_nodemap (s : Kernels) (kernel node : Key) (pnode : PseudoNode) (k n : Key) :
    (s.setNode kernel node pnode).nodemap k n = if k = kernel ∧ n = node then some pnode else s.nodemap k n := by
  by_cases hk : k = kernel
  · subst hk
    by_cases hn : n = node <;> simp [setNode, hn]
  · simp [setNode, hk]

private theorem made_of_nodemap {s t : Kernels} {pnode : PseudoNode} {q' : Nat} (pnode' : PseudoNode)
    (hn : s.nodemap kernel node = some pnode)
    (ht : ∀ k n, t.nodemap k n = if k = kernel ∧ n = node then some pnode' else s.nodemap k n)
    (hlist : pnode'.list side = pnode.list side ++ [q']) (hother : pnode'.list side.other = pnode.list side.other)
    (hmap : pnode'.map side.other = pnode.map side.other)
    (hqueues : ∃ queue, s.queues[q']? = some queue ∧ t.queues = s.queues.set q' (queue.joined side node))
    (hcontext : t.context = s.context) (huseremote : t.useremote = s.useremote) : Made side kernel node s t where
  list := by
    refine ⟨pnode.list side, q', by rw [listAt, hn]; rfl, ?_⟩
    rw [listAt, ht, if_pos ⟨rfl, rfl⟩, Option.map_some, hlist]
  list_other k n := by
    rw [listAt, listAt, ht]
    split_ifs with h
    · rw [h.1, h.2, hn, Option.map_some, Option.map_some, hother]
    · rfl
  map_other k n key := by
    rw [mapAt, mapAt, ht]
    split_ifs with h
    · rw [h.1, h.2, hn, Option.bind_some, Option.bind_some, hmap]
    · rfl
  queues i queue hi := by
    obtain ⟨queue', hq, heq⟩ := hqueues
    rw [heq, List.getElem?_set]
    split_ifs with hiq hlt
    · subst hiq
      rw [hq] at hi
      cases hi
      exact ⟨_, rfl, rfl⟩
    · subst hiq
      exact absurd (List.getElem?_eq_some_iff.1 hi).1 hlt
    · exact ⟨queue, hi, rfl⟩
  context := hcontext
  useremote := huseremote

/-- `CreateReader` and `CreateWriter` put the queue on the list, and then find out whether the port is free. -/
theorem create_run (side : Side) {s : Kernels} {pnode : PseudoNode} {queue : Queue} (hn : s.nodemap kernel node = some pnode)
    (hq : s.queues[q]? = some queue) : ∃ t, Made side kernel node s t ∧
      create side kernel node q s = if (s.mapAt side kernel node (queue.portkey side)).isSome
        then .error (.assertion (alreadyExists side)) t else .ok () t := by
  have hrun : create side kernel node q s = (do
      modify (setNode kernel node (pnode.listed side q))
      modify fun s => { s with queues := s.queues.set q (queue.joined side node) }
      throwIf (pnode.map side (queue.portkey side)).isSome (.assertion (alreadyExists side))
      modify (setNode kernel node ((pnode.listed side q).mapped side (queue.portkey side) q)) : Proc Unit) s := by
    unfold create
    rw [bind_ok get_run, hn, hq]
  rw [hrun, bind_ok (modify_run _), bind_ok (modify_run _)]
  have hmap : s.mapAt side kernel node (queue.portkey side) = pnode.map side (queue.portkey side) := by
    rw [mapAt, hn, Option.bind_some]
  rw [hmap]
  have hlisted : (pnode.listed side q).list side = pnode.list side ++ [q] := Function.update_self ..
  have hother : (pnode.listed side q).list side.other = pnode.list side.other := Function.update_of_ne side.other_ne ..
  let t : Kernels := { s.setNode kernel node (pnode.listed side q) with queues := s.queues.set q (queue.joined side node) }
  split_ifs with htaken
  · refine ⟨t, ?_, bind_error (throwIf_pos htaken)⟩
    exact made_of_nodemap (pnode.listed side q) hn (setNode_nodemap s _ _ _) hlisted hother rfl ⟨queue, hq, rfl⟩ rfl rfl
  · let pnode' := (pnode.listed side q).mapped side (queue.portkey side) q
    refine ⟨t.setNode kernel node pnode', ?_, bind_ok (throwIf_neg htaken)⟩
    refine made_of_nodemap pnode' hn (fun k n => ?_) hlisted hother (Function.update_of_ne side.other_ne ..)
      ⟨queue, hq, rfl⟩ rfl rfl
    rw [setNode_nodemap]
    split_ifs with h
    · rfl
    · exact (setNode_nodemap s _ _ _ _ _).trans (if_neg h)

private theorem Made.changed {s t : Kernels} (h : Made side kernel node s t) : t.nodemap ≠ s.nodemap := by
  intro heq
  obtain ⟨l, q, hs, ht⟩ := h.list
  rw [listAt, heq, ← listAt, hs] at ht
  have := congrArg List.length (Option.some.inj ht)
  rw [List.length_append, List.length_singleton] at this
  omega

private theorem Made.changed_other {s t u : Kernels} {kernel' node' : Key} (h : Made side kernel node s t)
    (h' : Made side.other kernel' node' t u) : u.nodemap ≠ s.nodemap := by
  intro heq
  obtain ⟨l, q, ht, hu⟩ := h'.list
  rw [listAt, heq, ← listAt, ← h.list_other, ht] at hu
  have := congrArg List.length (Option.some.inj hu)
  rw [List.length_append, List.length_singleton] at this
  omega

private theorem not_refused_ok {x : Proc Unit} {s t : Kernels} (h : x s = .ok () t) : ¬ Refused x s := by
  rintro ⟨side, u, hu⟩
  rw [h] at hu
  cases hu

private theorem not_refused_error {x : Proc Unit} {s t : Kernels} {what : String} (h : x s = .error (.assertion what) t)
    (hwhat : ∀ side, what ≠ alreadyExists side) : ¬ Refused x s := by
  rintro ⟨side, u, hu⟩
  rw [h] at hu
  cases hu
  exact hwhat side rfl

/-- The call is refused exactly when `p`, and then the nodes are not as before. -/
def Refusal (x : Proc Unit) (p : Prop) (s : Kernels) : Prop :=
  (Refused x s ↔ p) ∧ (Refused x s → (final (x s)).nodemap ≠ s.nodemap)

private theorem Refusal.congr {x y : Proc Unit} {p : Prop} {s : Kernels} (h : Refusal x p s) (hrun : y s = x s) :
    Refusal y p s := by
  unfold Refusal Refused at *
  rwa [hrun]

private theorem Refusal.iff {x : Proc Unit} {p p' : Prop} {s : Kernels} (h : Refusal x p s) (hp : p ↔ p') : Refusal x p' s :=
  ⟨h.1.trans hp, h.2⟩

private theorem refusal_of_error {x : Proc Unit} {p : Prop} {s t : Kernels} {what : String}
    (h : x s = .error (.assertion what) t)
    (hwhat : ∀ side, what ≠ alreadyExists side) (hp : ¬ p) : Refusal x p s :=
  ⟨iff_of_false (not_refused_error h hwhat) hp, fun hr => absurd hr (not_refused_error h hwhat)⟩

/-- `x` puts a queue on a list, and is refused exactly when `p`. -/
def Ends (x : Proc Unit) (side : Side) (kernel node : Key) (p : Prop) (s : Kernels) : Prop :=
  ∃ t, Made side kernel node s t ∧ (p ∧ x s = .error (.assertion (alreadyExists side)) t ∨ ¬ p ∧ x s = .ok () t)

/-- One end of the queue after the other: the call is refused at the first, or at the second if it gets there. -/
theorem Ends.then_refused {x y : Proc Unit} {kernel' node' : Key} {p p' allowed : Prop} {s : Kernels}
    (hx : Ends x side kernel node p s)
    (hy : ∀ t, Made side kernel node s t → allowed ∧ Ends y side.other kernel' node' p' t ∨
      ¬ allowed ∧ ∃ what, y t = .error (.assertion what) t ∧ ∀ side, what ≠ alreadyExists side) :
    Refusal (x >>= fun _ => y) (p ∨ allowed ∧ p') s := by
  obtain ⟨t, hmade, ⟨hp, hx⟩ | ⟨hp, hx⟩⟩ := hx
  · have hrun : (x >>= fun _ => y) s = .error (.assertion (alreadyExists side)) t := bind_error hx
    refine ⟨iff_of_true ⟨side, t, hrun⟩ (.inl hp), fun _ => ?_⟩
    rw [hrun]
    exact hmade.changed
  · have hrun : (x >>= fun _ => y) s = y t := bind_ok hx
    rcases hy t hmade with ⟨hallowed, u, hmade', ⟨hp', hy⟩ | ⟨hp', hy⟩⟩ | ⟨hallowed, what, hy, hwhat⟩
    · refine ⟨iff_of_true ⟨side.other, u, hrun.trans hy⟩ (.inr ⟨hallowed, hp'⟩), fun _ => ?_⟩
      rw [hrun, hy]
      exact hmade.changed_other hmade'
    · have hnot := not_refused_ok (hrun.trans hy)
      exact ⟨iff_of_false hnot fun h => h.elim hp fun h => hp' h.2, fun h => absurd h hnot⟩
    · have hnot := not_refused_error (hrun.trans hy) hwhat
      exact ⟨iff_of_false hnot fun h => h.elim hp fun h => hallowed h.1, fun h => absurd h hnot⟩

private theorem ends_create (side : Side) {s : Kernels} {queue : Queue} (hn : (s.nodemap kernel node).isSome)
    (hq : s.queues[q]? = some queue) :
    Ends (create side kernel node q) side kernel node (s.mapAt side kernel node (queue.portkey side)).isSome s := by
  obtain ⟨pnode, hn⟩ := Option.isSome_iff_exists.1 hn
  obtain ⟨t, hmade, hrun⟩ := create_run side hn hq
  refine ⟨t, hmade, ?_⟩
  split_ifs at hrun with h
  · exact .inl ⟨h, hrun⟩
  · exact .inr ⟨h, hrun⟩

private theorem Made.congr {s s' t : Kernels} (h : Made side kernel node s' t) (hnodemap : s'.nodemap = s.nodemap)
    (hcontext : s'.context = s.context) (huseremote : s'.useremote = s.useremote)
    (hqueues : ∀ (i : Nat) (queue : Queue), s.queues[i]? = some queue → s'.queues[i]? = some queue) :
    Made side kernel node s t where
  list := by
    have := h.list
    rwa [listAt, hnodemap] at this
  list_other k n := by
    rw [h.list_other, listAt, listAt, hnodemap]
  map_other k n key := by
    rw [h.map_other, mapAt, mapAt, hnodemap]
  queues i queue hi := h.queues i queue (hqueues i queue hi)
  context := h.context.trans hcontext
  useremote := h.useremote.trans huseremote

private theorem Ends.congr {s s' : Kernels} {x y : Proc Unit} {p : Prop} (h : Ends x side kernel node p s')
    (hrun : y s = x s')
    (hnodemap : s'.nodemap = s.nodemap) (hcontext : s'.context = s.context) (huseremote : s'.useremote = s.useremote)
    (hqueues : ∀ (i : Nat) (queue : Queue), s.queues[i]? = some queue → s'.queues[i]? = some queue) :
    Ends y side kernel node p s := by
  obtain ⟨t, hmade, h⟩ := h
  exact ⟨t, hmade.congr hnodemap hcontext huseremote hqueues, hrun ▸ h⟩

private theorem Ends.orAbort {s : Kernels} {x : Proc Unit} {p : Prop} (h : Ends x side kernel node p s) (kernel' key : Key)
    (q : Nat) : Ends (orAbort kernel' key q x) side kernel node p s := by
  obtain ⟨t, hmade, ⟨hp, hx⟩ | ⟨hp, hx⟩⟩ := h
  · refine ⟨{ t with aborted := t.aborted || t.remotequeueholder kernel' key != some q },
      ⟨hmade.list, hmade.list_other, hmade.map_other, hmade.queues, hmade.context, hmade.useremote⟩, .inl ⟨hp, ?_⟩⟩
    rw [Kernels.orAbort, hx]
  · refine ⟨t, hmade, .inr ⟨hp, ?_⟩⟩
    rw [Kernels.orAbort, hx]

private theorem newQueue_run (s : Kernels) (queue : Queue) :
    newQueue queue s = .ok s.queues.length { s with queues := s.queues ++ [queue] } := rfl

private theorem hasNode_run {s : Kernels} {what : String} (h : (s.nodemap kernel node).isSome) :
    hasNode kernel node what s = .ok () s := by
  unfold hasNode
  rw [bind_ok get_run, throwIf_neg (by rw [Option.isNone_iff_eq_none]; exact Option.isSome_iff_ne_none.1 h)]

private theorem assertRemote_run {s : Kernels} (h : s.useremote kernel) : assertRemote kernel s = .ok () s := by
  unfold assertRemote
  rw [bind_ok get_run, throwIf_neg (not_not.2 h)]

private theorem assertRemote_error {s : Kernels} (h : ¬ s.useremote kernel) : assertRemote kernel s =
    .error (.assertion "Cannot create remote queue without enabling remote operations.") s := by
  unfold assertRemote
  rw [bind_ok get_run, throwIf_pos h]

private theorem ends_createEndpoint {s : Kernels} (hu : s.useremote kernel)
    (hn : (s.nodemap kernel (attr.nodekey side)).isSome) :
    Ends (createEndpoint side kernel attr) side kernel (attr.nodekey side) (s.Taken side kernel attr) s := by
  have hold (i : Nat) (queue : Queue) (h : s.queues[i]? = some queue) :
      (s.queues ++ [remoteQueue side attr])[i]? = some queue := by
    rw [List.getElem?_append_left (List.getElem?_eq_some_iff.1 h).1, h]
  let q := s.queues.length
  let t : Kernels := { s with queues := s.queues ++ [remoteQueue side attr] }
  obtain ⟨t', ht', hnodemap, hcontext, huseremote, hqueues⟩ : ∃ t',
      addQueue kernel (attr.portkey side) q t = .ok () t' ∧ t'.nodemap = t.nodemap ∧ t'.context = t.context ∧
        t'.useremote = t.useremote ∧ t'.queues = t.queues := by
    refine ⟨_, modify_run _, ?_⟩
    split_ifs
    · exact ⟨rfl, rfl, rfl, rfl⟩
    · exact ⟨rfl, rfl, rfl, rfl⟩
  have hqueue : t'.queues[q]? = some (remoteQueue side attr) := by
    rw [hqueues]
    exact List.getElem?_concat_length ..
  have hcreate : Ends (create side kernel (attr.nodekey side) q) side kernel (attr.nodekey side)
      (s.Taken side kernel attr) t' := by
    have hnode : (t'.nodemap kernel (attr.nodekey side)).isSome := by
      rw [hnodemap]
      exact hn
    have h := ends_create side hnode hqueue
    rwa [mapAt, hnodemap] at h
  have hbody : Ends (do
      hasNode kernel (attr.nodekey side) "Node not found!?"
      addQueue kernel (attr.portkey side) q
      create side kernel (attr.nodekey side) q) side kernel (attr.nodekey side) (s.Taken side kernel attr) t := by
    refine hcreate.congr ?_ hnodemap hcontext huseremote fun i queue h => by rw [hqueues, h]
    have hnode : (t.nodemap kernel (attr.nodekey side)).isSome := hn
    rw [bind_ok (hasNode_run hnode), bind_ok ht']
  have habort := hbody.orAbort kernel (attr.portkey side) q
  refine habort.congr ?_ rfl rfl rfl hold
  unfold createEndpoint
  rw [bind_ok (assertRemote_run hu), bind_ok (newQueue_run s _)]

private theorem refusal_createLocalQueue {s : Kernels} (hr : (s.nodemap kernel (attr.nodekey .reader)).isSome)
    (hw : (s.nodemap kernel (attr.nodekey .writer)).isSome) :
    Refusal (createLocalQueue kernel attr) (s.Taken .writer kernel attr ∨ s.Taken .reader kernel attr) s := by
  let q := s.queues.length
  let t : Kernels := { s with queues := s.queues ++ [{ portkey := attr.portkey }] }
  have hqueue : t.queues[q]? = some { portkey := attr.portkey } := List.getElem?_concat_length ..
  have hrun : createLocalQueue kernel attr s = (create .writer kernel (attr.nodekey .writer) q >>= fun _ =>
      create .reader kernel (attr.nodekey .reader) q) t := by
    unfold createLocalQueue
    rw [bind_ok (newQueue_run s _)]
    have hr' : (t.nodemap kernel (attr.nodekey .reader)).isSome := hr
    have hw' : (t.nodemap kernel (attr.nodekey .writer)).isSome := hw
    exact (bind_ok (hasNode_run hr')).trans (bind_ok (hasNode_run hw'))
  have hreader (u : Kernels) (hmade : Made .writer kernel (attr.nodekey .writer) t u) :
      Ends (create .reader kernel (attr.nodekey .reader) q) .reader kernel (attr.nodekey .reader)
        (s.Taken .reader kernel attr) u := by
    obtain ⟨queue', hq', hkey⟩ := hmade.queues q _ hqueue
    have hlist : u.listAt .reader kernel (attr.nodekey .reader) = t.listAt .reader kernel (attr.nodekey .reader) :=
      hmade.list_other ..
    have hmap (key : Key) : u.mapAt .reader kernel (attr.nodekey .reader) key =
      t.mapAt .reader kernel (attr.nodekey .reader) key := hmade.map_other ..
    have hnode : (u.nodemap kernel (attr.nodekey .reader)).isSome := by
      rw [← isSome_listAt u .reader, hlist, isSome_listAt]
      exact hr
    have h := ends_create .reader hnode hq'
    rw [hmap, hkey] at h
    exact h
  have hnode : (t.nodemap kernel (attr.nodekey .writer)).isSome := hw
  have hwriter : Ends (create .writer kernel (attr.nodekey .writer) q) .writer kernel (attr.nodekey .writer)
    (s.Taken .writer kernel attr) t := ends_create .writer hnode hqueue
  have hends := hwriter.then_refused fun u hmade => .inl ⟨trivial, hreader u hmade⟩
  rw [true_and] at hends
  unfold Refusal Refused
  rw [hrun]
  exact hends

private theorem send_run {s : Kernels} (hs : s.context.shutdown = false) (hk : (s.context.kernelmap kernel).isSome)
    (call : Proc Unit) : s.useremote kernel ∧ send kernel call s = call s ∨
      ¬ s.useremote kernel ∧ send kernel call s = .error (.assertion "useremote") s := by
  have hterminated : onContext LocalContext.internalCheckTerminated s = .ok () s :=
    onContext_ok (LocalContext.internalCheckTerminated_run hs)
  have hkernel : ¬ (s.context.kernelmap kernel).isNone := by
    rw [Option.isNone_iff_eq_none]
    exact Option.isSome_iff_ne_none.1 hk
  unfold send
  rw [bind_ok hterminated, bind_ok get_run, bind_ok (throwIf_neg hkernel), bind_ok get_run]
  by_cases hu : s.useremote kernel
  · rw [bind_ok (throwIf_neg (not_not.2 hu))]
    exact .inl ⟨hu, rfl⟩
  · rw [bind_error (throwIf_pos hu)]
    exact .inr ⟨hu, rfl⟩

private theorem useremote_ne (side : Side) : "useremote" ≠ alreadyExists side := by
  cases side <;> decide

private theorem remote_ne (side : Side) :
    "Cannot create remote queue without enabling remote operations." ≠ alreadyExists side := by
  cases side <;> decide

/-- The second end of a queue between two kernels, after the first one has been made. -/
theorem ends_sendCreate {s t : Kernels} {kernel' node' : Key} (hmade : Made side kernel' node' s t)
    (hs : s.context.shutdown = false) (hk : (s.context.kernelmap kernel).isSome)
    (hn : (s.nodemap kernel (attr.nodekey side.other)).isSome) :
    s.useremote kernel ∧ Ends (sendCreate side.other kernel attr) side.other kernel (attr.nodekey side.other)
        (s.Taken side.other kernel attr) t ∨
      ¬ s.useremote kernel ∧ ∃ what, sendCreate side.other kernel attr t = .error (.assertion what) t ∧
        ∀ side, what ≠ alreadyExists side := by
  have hnode : (t.nodemap kernel (attr.nodekey side.other)).isSome := by
    rw [← isSome_listAt t side.other, hmade.list_other, isSome_listAt]
    exact hn
  rw [← hmade.context] at hs hk
  rw [← hmade.useremote]
  rcases send_run hs hk (createEndpoint side.other kernel attr) with ⟨hu, hrun⟩ | ⟨hu, hrun⟩
  · have hends := ends_createEndpoint hu hnode
    rw [Taken, hmade.map_other, ← Taken] at hends
    exact .inl ⟨hu, hends.congr hrun rfl rfl rfl fun _ _ h => h⟩
  · exact .inr ⟨hu, _, hrun, useremote_ne⟩

private theorem refusal_assertRemote {s : Kernels} {x : Proc Unit} {p : Prop} (h : s.useremote kernel → Refusal x p s) :
    Refusal (assertRemote kernel >>= fun _ => x) (s.useremote kernel ∧ p) s := by
  by_cases hu : s.useremote kernel
  · have hrun : (assertRemote kernel >>= fun _ => x) s = x s := bind_ok (assertRemote_run hu)
    exact ((h hu).congr hrun).iff (and_iff_right hu).symm
  · have hrun := bind_error (f := fun _ => x) (assertRemote_error hu)
    exact refusal_of_error hrun remote_ne fun hp => hu hp.1

private theorem refusal_send {s : Kernels} {x : Proc Unit} {p : Prop} (hs : s.context.shutdown = false)
    (hk : (s.context.kernelmap kernel).isSome) (h : Refusal x p s) :
    Refusal (send kernel x) (s.useremote kernel ∧ p) s := by
  rcases send_run hs hk x with ⟨hu, hrun⟩ | ⟨hu, hrun⟩
  · exact (h.congr hrun).iff (and_iff_right hu).symm
  · exact refusal_of_error hrun useremote_ne fun hp => hu hp.1

/-- The second half of `CreateQueue`, for nodes that are on their kernels. -/
theorem refusal_place (s : Kernels) (kernelkey : Key) {readerkernel writerkernel : Key} (hs : s.context.shutdown = false)
    (hr : (s.context.nodemap (attr.nodekey .reader)).map NodeInfo.kernelkey = some readerkernel)
    (hw : (s.context.nodemap (attr.nodekey .writer)).map NodeInfo.kernelkey = some writerkernel)
    (hkr : (s.context.kernelmap readerkernel).isSome) (hkw : (s.context.kernelmap writerkernel).isSome)
    (hnr : (s.nodemap readerkernel (attr.nodekey .reader)).isSome)
    (hnw : (s.nodemap writerkernel (attr.nodekey .writer)).isSome) :
    Refusal (place kernelkey attr) (s.OccupiedAt kernelkey attr readerkernel writerkernel) s := by
  obtain ⟨rnode, hrnode, rfl⟩ := Option.map_eq_some_iff.1 hr
  obtain ⟨wnode, hwnode, rfl⟩ := Option.map_eq_some_iff.1 hw
  have hreader : onContext (LocalContext.getNodeKernel (attr.nodekey .reader)) s = .ok rnode.kernelkey s :=
    onContext_ok (LocalContext.getNodeKernel_run hs hrnode)
  have hwriter : onContext (LocalContext.getNodeKernel (attr.nodekey .writer)) s = .ok wnode.kernelkey s :=
    onContext_ok (LocalContext.getNodeKernel_run hs hwnode)
  unfold OccupiedAt
  -- one kernel for both nodes makes a local queue, two kernels make two endpoints
  by_cases hsame : rnode.kernelkey = wnode.kernelkey
  · rw [← hsame] at hnw
    have hlocal := refusal_createLocalQueue hnr hnw
    rw [if_pos hsame]
    by_cases hhere : rnode.kernelkey = kernelkey
    · have hrun : place kernelkey attr s = createLocalQueue rnode.kernelkey attr s := by
        unfold place
        rw [bind_ok hreader, bind_ok hwriter, if_pos hsame, if_pos hhere, hhere]
      exact (hlocal.congr hrun).iff (and_iff_right (.inl hhere)).symm
    · have hrun : place kernelkey attr s =
          (assertRemote kernelkey >>= fun _ => sendCreateQueue rnode.kernelkey attr) s := by
        unfold place
        rw [bind_ok hreader, bind_ok hwriter, if_pos hsame, if_neg hhere]
      refine ((refusal_assertRemote fun _ => refusal_send hs hkr hlocal).congr hrun).iff ?_
      rw [or_iff_right hhere, and_assoc]
  · rw [if_neg hsame]
    by_cases hhere : rnode.kernelkey = kernelkey
    · have hrun : place kernelkey attr s = (assertRemote kernelkey >>= fun _ =>
          createEndpoint .reader kernelkey attr >>= fun _ => sendCreate .writer wnode.kernelkey attr) s := by
        unfold place
        rw [bind_ok hreader, bind_ok hwriter, if_neg hsame, if_pos hhere]
      rw [if_pos hhere]
      rw [hhere] at hnr
      exact (refusal_assertRemote fun hu => (ends_createEndpoint hu hnr).then_refused fun t hmade =>
        ends_sendCreate hmade hs hkw hnw).congr hrun
    · rw [if_neg hhere]
      by_cases hthere : wnode.kernelkey = kernelkey
      · have hrun : place kernelkey attr s = (assertRemote kernelkey >>= fun _ =>
            createEndpoint .writer kernelkey attr >>= fun _ => sendCreate .reader rnode.kernelkey attr) s := by
          unfold place
          rw [bind_ok hreader, bind_ok hwriter, if_neg hsame, if_neg hhere, if_pos hthere]
        rw [if_pos hthere]
        rw [hthere] at hnw
        exact (refusal_assertRemote fun hu => (ends_createEndpoint hu hnw).then_refused fun t hmade =>
          ends_sendCreate hmade hs hkr hnr).congr hrun
      · have hrun : place kernelkey attr s = (assertRemote kernelkey >>= fun _ =>
            sendCreate .writer wnode.kernelkey attr >>= fun _ => sendCreate .reader rnode.kernelkey attr) s := by
          unfold place
          rw [bind_ok hreader, bind_ok hwriter, if_neg hsame, if_neg hhere, if_neg hthere]
        rw [if_neg hthere]
        refine (refusal_assertRemote fun _ => ?_).congr hrun
        -- neither node is here: the two requests are sent, the one to the writer first
        rcases send_run hs hkw (createEndpoint .writer wnode.kernelkey attr) with ⟨hu, hsend⟩ | ⟨hu, hsend⟩
        · have hfirst := (ends_createEndpoint hu hnw).congr hsend rfl rfl rfl fun _ _ h => h
          refine (hfirst.then_refused fun t hmade => ends_sendCreate hmade hs hkr hnr).iff ?_
          exact (and_iff_right hu).symm
        · exact refusal_of_error (bind_error hsend) useremote_ne fun hp => hu hp.1

/-! ### CreateQueue -/

/-- The attributes name existing ports of started nodes, and `attr` has their keys. -/
structure Names (s : Kernels) (qattr : QueueAttr) (attr : SimpleQueueAttr) : Prop where
  live : s.context.shutdown = false
  ports : ∃ c, normalize qattr s.context = .ok attr c ∧ ∀ side, (c.ports side (attr.portkey side)).isSome
  nodes : ∀ side, ∃ node, s.context.nodemap (attr.nodekey side) = some node ∧ node.started = true ∧
    (s.context.kernelmap node.kernelkey).isSome ∧ (s.nodemap node.kernelkey (attr.nodekey side)).isSome

/-- What the call is not to change when it is refused: the connections of the ports, the maps and lists of the nodes,
and the queues that there were. -/
structure Traceless (s t : Kernels) : Prop where
  connections : ∀ side k, (t.context.ports side k).map PortInfo.opposingport =
    (s.context.ports side k).map PortInfo.opposingport
  nodemap : t.nodemap = s.nodemap
  queues : ∀ (i : Nat) (queue : Queue), s.queues[i]? = some queue → t.queues[i]? = some queue

/-- The call comes to no port that has a queue, and to no reader port that another writer is connected to. -/
def Clean (s : Kernels) : Act → Prop
  | .createQueue kernel qattr => ∀ attr c, normalize qattr s.context = .ok attr c →
    ¬ s.Occupied kernel attr ∧ Unshared s.context (attr.portkey .writer) (attr.portkey .reader)
  | _ => True

variable {s : Kernels} {qattr : QueueAttr}

private theorem sameKernels_normalize (qattr : QueueAttr) {c : LocalContext} :
    Maintains (LocalContext.SameKernels c) (normalize qattr) := by
  have hside (side : Side) : Maintains (LocalContext.SameKernels c) (normalizeSide side qattr) := by
    have hnode : Maintains (LocalContext.SameKernels c) (nodeOf side qattr) := by
      refine .ite (fun _ => Maintains.bind (.throwIf _ _) fun _ => ?_) fun _ => .pure _
      exact LocalContext.maintains_waitForNodeStart _
    refine .ite (fun _ => hnode.bind fun _ => Maintains.bind (.throwIf _ _) fun _ => ?_) fun _ =>
      .ite (fun _ => ?_) fun _ => .pure _
    · exact (LocalContext.sameKernels_getCreatePortKey _ _ _).bind fun _ => .pure _
    · exact (LocalContext.maintains_getPortNode _ _).bind fun _ => .pure _
  exact (hside .reader).bind fun _ => (hside .writer).bind fun _ => .pure _

private theorem extends_of_normalize {r : EStateM.Result Stop LocalContext SimpleQueueAttr}
    (h : normalize qattr s.context = r) :
    Extends s.context (final r) := by
  have := extends_normalize s.context qattr s.context (.refl _)
  rwa [h] at this

private theorem sameKernels_of_normalize {r : EStateM.Result Stop LocalContext SimpleQueueAttr}
    (h : normalize qattr s.context = r) : LocalContext.SameKernels s.context (final r) := by
  have := sameKernels_normalize (c := s.context) qattr s.context (.refl _)
  rwa [h] at this

/-- A call that is refused has come to a port that has a queue, and has put its queue on a list by then. -/
theorem refusal_createQueue (kernel : Key) (h : s.Names qattr attr) :
    Refusal (createQueue kernel qattr) (s.Occupied kernel attr) s := by
  obtain ⟨c, hn, hports⟩ := h.ports
  obtain ⟨rnode, hr, -, hkr, hnr⟩ := h.nodes .reader
  obtain ⟨wnode, hw, -, hkw, hnw⟩ := h.nodes .writer
  obtain ⟨writer, hwriter⟩ := Option.isSome_iff_exists.1 (hports .writer)
  obtain ⟨reader, hreader⟩ := Option.isSome_iff_exists.1 (hports .reader)
  have hsame : LocalContext.SameKernels s.context c := sameKernels_of_normalize hn
  have hlive : c.shutdown = false := hsame.shutdown.trans h.live
  have hkernel (side : Side) {node : NodeInfo} (hnode : s.context.nodemap (attr.nodekey side) = some node) :
      (c.nodemap (attr.nodekey side)).map NodeInfo.kernelkey = some node.kernelkey := by
    rw [hsame.nodemap, hnode]
    rfl
  have hconnect := LocalContext.connectEndpoints_run qattr.name hlive hwriter hreader
  have hrun : ∃ c', (c'.shutdown = false ∧ c'.nodemap = c.nodemap ∧ c'.kernelmap = c.kernelmap) ∧
      createQueue kernel qattr s = place kernel attr { s with context := c' } := by
    refine ⟨_, ⟨?_, ?_, ?_⟩, (bind_ok (onContext_ok hn)).trans (bind_ok (onContext_ok hconnect))⟩
    · exact hlive
    · rfl
    · rfl
  obtain ⟨c', ⟨hlive', hnodes', hkernels'⟩, hrun⟩ := hrun
  have hplace := refusal_place { s with context := c' } kernel hlive'
    (by rw [hnodes']; exact hkernel .reader hr) (by rw [hnodes']; exact hkernel .writer hw)
    (by rw [hkernels', hsame.kernelmap]; exact hkr) (by rw [hkernels', hsame.kernelmap]; exact hkw) hnr hnw
  have hocc : s.Occupied kernel attr = s.OccupiedAt kernel attr rnode.kernelkey wnode.kernelkey := by
    rw [Occupied, kernelOf, kernelOf, hr, hw]
    rfl
  unfold Refusal Refused
  rw [hrun, hocc]
  exact hplace

private theorem refused_traceless_iff {kernel : Key} (h : s.Names qattr attr) :
    (Refused (createQueue kernel qattr) s → Traceless s (final (createQueue kernel qattr s))) ↔
      ¬ s.Occupied kernel attr := by
  obtain ⟨hiff, hchanged⟩ := refusal_createQueue kernel h
  rw [← hiff]
  refine ⟨fun htraceless hrefused => ?_, fun hnot hrefused => absurd hrefused hnot⟩
  exact hchanged hrefused (htraceless hrefused).nodemap

/-- What `ConnectEndpoints` does to the pairs in the registry that the ports have been looked up in. -/
theorem paired_after_connect (hsound : Sound s.context) {c : LocalContext} (hn : normalize qattr s.context = .ok attr c)
    (hlive : c.shutdown = false) (hwriter : ∃ port, c.ports .writer (attr.portkey .writer) = some port)
    (hreader : ∃ port, c.ports .reader (attr.portkey .reader) = some port) :
    Paired (final (LocalContext.connectEndpoints (attr.portkey .writer) (attr.portkey .reader) qattr.name c)) ↔
      Unshared s.context (attr.portkey .writer) (attr.portkey .reader) := by
  obtain ⟨writer, hwriter⟩ := hwriter
  obtain ⟨reader, hreader⟩ := hreader
  have hext : Extends s.context c := extends_of_normalize hn
  have hsame : LocalContext.SameKernels s.context c := sameKernels_of_normalize hn
  have hs : s.context.shutdown = false := hsame.shutdown.symm.trans hlive
  have hne : attr.portkey .reader ≠ 0 := Nat.pos_iff_ne_zero.1 (hext.fresh hsound.fresh .reader _ (by rw [hreader]; rfl)).1
  rw [paired_connected_iff qattr.name (hsound.extends hext).paired hlive hne hwriter hreader,
    unshared_extends hsound.fresh hext hs hlive hne]

private theorem fresh_connectEndpoints {c : LocalContext} {w r : Key} {qname : String} (h : Fresh c) :
    Fresh (final (LocalContext.connectEndpoints w r qname c)) := by
  rcases LocalContext.connectEndpoints_cases c w r qname with ⟨e, hrun⟩ | ⟨hs, ⟨writer, hw⟩, reader, hr⟩
  · rw [hrun]
    exact h
  · obtain ⟨-, hcounter, hwriter, hreader⟩ := ports_connected qname hw hr hs
    intro side k hk
    rw [hcounter]
    cases side with
    | reader =>
      rw [hreader] at hk
      by_cases heq : k = r
      · exact heq ▸ h .reader r (by rw [hr]; rfl)
      · rw [Function.update_of_ne heq] at hk
        exact h .reader k hk
    | writer =>
      rw [hwriter] at hk
      by_cases heq : k = w
      · exact heq ▸ h .writer w (by rw [hw]; rfl)
      · rw [Function.update_of_ne heq] at hk
        exact h .writer k hk

private theorem fresh_of_reachable (h : machine.Reachable s) : Fresh s.context := by
  refine Machine.ReachableBy.invariant (I := fun s => Fresh s.context) (fun s hs => ?_) (fun s a t hI _ hn => ?_) h
  · rw [hs]
    exact fun side k hk => by cases hk
  · cases hn
    by_cases ha : ∃ kernel qattr, a = .createQueue kernel qattr
    · obtain ⟨kernel, qattr, rfl⟩ := ha
      rcases context_createQueue s kernel qattr with ⟨e, hn⟩ | ⟨attr, c, hn, hcontext⟩
      · exact (extends_of_normalize hn).fresh hI
      · change Fresh (final (createQueue kernel qattr s)).context
        rw [hcontext]
        exact fresh_connectEndpoints ((extends_of_normalize hn).fresh hI)
    · have hother (kernel : Key) (qattr : QueueAttr) : a ≠ .createQueue kernel qattr := fun h => ha ⟨kernel, qattr, h⟩
      exact maintains_perform (P := Fresh) (fun _ _ hc he => he.fresh hc) hother s hI

private theorem sound_of_clean (h : machine.ReachableBy Clean s) : Sound s.context := by
  refine Machine.ReachableBy.invariant (I := fun s => Sound s.context) (fun s hs => ?_) (fun s a t hI hclean hn => ?_) h
  · rw [hs]
    exact ⟨fun side k hk => (by cases hk), fun w port hw => (by cases hw)⟩
  · cases hn
    by_cases ha : ∃ kernel qattr, a = .createQueue kernel qattr
    · obtain ⟨kernel, qattr, rfl⟩ := ha
      change Sound (final (createQueue kernel qattr s)).context
      rcases context_createQueue s kernel qattr with ⟨e, hn⟩ | ⟨attr, c, hn, hcontext⟩
      · exact hI.extends (extends_of_normalize hn)
      · rw [hcontext]
        have hext : Sound c := hI.extends (extends_of_normalize hn)
        refine ⟨fresh_connectEndpoints hext.fresh, ?_⟩
        rcases LocalContext.connectEndpoints_cases c (attr.portkey .writer) (attr.portkey .reader) qattr.name with
          ⟨e, hrun⟩ | ⟨hlive, hwriter, hreader⟩
        · rw [hrun]
          exact hext.paired
        · exact (paired_after_connect hI hn hlive hwriter hreader).2 (hclean attr c hn).2
    · have hother (kernel : Key) (qattr : QueueAttr) : a ≠ .createQueue kernel qattr := fun h => ha ⟨kernel, qattr, h⟩
      exact maintains_perform (P := Sound) (fun _ _ hc he => hc.extends he) hother s hI

/-- A call that names ports of started nodes keeps the connections in pairs exactly when no other writer is connected to
the reader. -/
theorem roundTrip_createQueue_iff {kernel : Key} (hs : machine.Reachable s) (h : s.Names qattr attr)
    (hround : RoundTrip s.context) : RoundTrip (final (createQueue kernel qattr s)).context ↔
      Unshared s.context (attr.portkey .writer) (attr.portkey .reader) := by
  obtain ⟨c, hn, hports⟩ := h.ports
  have hsound : Sound s.context := ⟨fresh_of_reachable hs, (roundTrip_iff h.live).1 hround⟩
  have hlive : c.shutdown = false :=
    LocalContext.SameKernels.shutdown (sameKernels_of_normalize hn) |>.trans h.live
  obtain ⟨writer, hwriter⟩ := Option.isSome_iff_exists.1 (hports .writer)
  obtain ⟨reader, hreader⟩ := Option.isSome_iff_exists.1 (hports .reader)
  rcases context_createQueue s kernel qattr with ⟨e, hn'⟩ | ⟨attr', c', hn', hcontext⟩
  · rw [hn] at hn'
    cases hn'
  · rw [hn] at hn'
    cases hn'
    have hshutdown := (ports_connected qattr.name hwriter hreader hlive).1
    rw [hcontext, roundTrip_iff hshutdown]
    exact paired_after_connect hsound hn hlive ⟨writer, hwriter⟩ ⟨reader, hreader⟩

/-- A call that is refused leaves no trace exactly when it is never refused, that is when it comes to no port that has a
queue; a call keeps the connections in pairs exactly when no other writer port is connected to the reader port; and in
every run whose calls meet both conditions no call is refused, and the connections are in pairs. -/
theorem failed_create_traceless_iff (s : Kernels) :
    (machine.Reachable s → ∀ kernel qattr attr, s.Names qattr attr →
      ((Refused (createQueue kernel qattr) s → Traceless s (final (createQueue kernel qattr s))) ↔
        ¬ s.Occupied kernel attr) ∧
      (RoundTrip s.context → (RoundTrip (final (createQueue kernel qattr s)).context ↔
        Unshared s.context (attr.portkey .writer) (attr.portkey .reader)))) ∧
    (machine.ReachableBy Clean s → RoundTrip s.context ∧ ∀ kernel qattr attr, s.Names qattr attr →
      Clean s (.createQueue kernel qattr) → ¬ Refused (createQueue kernel qattr) s) := by
  refine ⟨fun hs kernel qattr attr h => ⟨refused_traceless_iff h, roundTrip_createQueue_iff hs h⟩, fun hs => ?_⟩
  refine ⟨(sound_of_clean hs).paired.roundTrip, fun kernel qattr attr h hclean hrefused => ?_⟩
  obtain ⟨c, hn, -⟩ := h.ports
  exact (hclean attr c hn).1 ((refusal_createQueue kernel h).1.1 hrefused)

/-- Two nodes on one kernel, with a queue from the port "out" of the second to the port "in" of the first. -/
def connected : List Act := [
  .setupKernel "kernel" "" "" false,
  .createNodeKey 1 "reader", .insertNode 1 2, .signalNodeStart 2,
  .createNodeKey 1 "writer", .insertNode 1 3, .signalNodeStart 3,
  .createQueue 1 {
    nodename := fun | .reader => "reader" | .writer => "writer"
    portname := fun | .reader => "in" | .writer => "out" }]

/-- A second queue to the port "in". -/
def second : QueueAttr where
  nodename := fun | .reader => "reader" | .writer => "writer"
  portname := fun | .reader => "in" | .writer => "other"

def linked : Kernels := connected.foldl (fun s a => final (perform a s)) {}

private theorem linked_reachable : machine.Reachable linked :=
  Machine.ReachableBy.of_runBy (.init rfl) (show machine.runBy (fun _ _ => True) {} connected = some linked from rfl)

private theorem names_linked : ∃ attr, linked.Names second attr := by
  refine ⟨_, rfl, ⟨_, rfl, fun side => by cases side <;> decide⟩, fun side => ?_⟩
  cases side
  · exact ⟨_, rfl, rfl, by decide, by decide⟩
  · exact ⟨_, rfl, rfl, by decide, by decide⟩

/-- The second queue is refused at its reader.  The writer "out" stays connected to "in", which is connected to "other". -/
theorem refused_leaves_trace : ∃ attr, machine.Reachable linked ∧ linked.Names second attr ∧
    Refused (createQueue 1 second) linked ∧ ¬ Traceless linked (final (createQueue 1 second linked)) ∧
    ¬ RoundTrip (final (createQueue 1 second linked)).context := by
  obtain ⟨attr, hnames⟩ := names_linked
  refine ⟨attr, linked_reachable, hnames, ⟨.reader, _, rfl⟩, fun h => ?_, fun h => ?_⟩
  · have hfour := h.connections .reader 4
    exact absurd hfour (by decide)
  · have hfive := h 5 4 rfl (by decide)
    cases hfive

theorem linked_occupied : ∃ attr, linked.Names second attr ∧ linked.Occupied 1 attr := by
  obtain ⟨attr, hnames⟩ := names_linked
  refine ⟨attr, hnames, not_not.1 fun hfree => ?_⟩
  have h := ((failed_create_traceless_iff linked).1 linked_reachable 1 second attr hnames).1.2 hfree
  have hfour := (h ⟨.reader, _, rfl⟩).connections .reader 4
  exact absurd hfour (by decide)

end Kernels

end ProcessNetwork.Registry
