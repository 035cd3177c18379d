import ProcessNetwork.RemoteSession

/-!
# The registry through the remote context

The calls of a client have the results of a local context as long as they keep to the names and keys that both sides treat
alike; the first call that does not has another result (`remote_like_local_iff`).
-/

namespace ProcessNetwork.RemoteContext

open Exceptions
open Registry (Key Stop Side Call Answer Gives LocalContext Directory ShownBy)
open Registry.Directory (Node Port Entry)

/-! ### The condition -/

/-- The key is that of an object. -/
def Known (c : LocalContext) (k : Key) : Prop :=
  (c.kernelmap k).isSome ∨ (c.nodemap k).isSome ∨ ∃ side, (c.ports side k).isSome

/-- The calls that both contexts treat alike: a new kernel has a new name, a key is unknown or that of an object of the kind
that is asked for, a port is there where one is needed, and the node has no port of the other side by the name. -/
def Agreed (c : LocalContext) : Call → Prop
  | .setupKernel name _ _ => c.kernelnames name = none
  | .getKernelName kernelkey => Known c kernelkey → (c.kernelmap kernelkey).isSome
  | .getNodeName nodekey | .getNodeKernel nodekey => Known c nodekey → (c.nodemap nodekey).isSome
  | .signalNodeStart nodekey | .signalNodeEnd nodekey => (c.nodemap nodekey).isSome
  | .getCreatePortKey side nodekey portname => (Known c nodekey → (c.nodemap nodekey).isSome) ∧
    ∀ node, c.nodemap nodekey = some node → node.ports side portname = none → node.ports side.other portname = none
  | .getPortNode side portkey | .getPortKernel side portkey | .getPortName side portkey
  | .getOpposingPort side portkey => (c.ports side portkey).isSome
  | .connectEndpoints writerkey readerkey _ => (c.ports .writer writerkey).isSome ∧ (c.ports .reader readerkey).isSome
  | .getKernelKey _ | .createNodeKey _ _ | .getNodeKey _ => True

/-- No node has a reader and a writer of one name. -/
def Distinct (d : Directory) : Prop := ∀ k node, d.entries k = some (.node node) →
  ∀ side name, (node.ports side name).isSome → node.ports side.other name = none

section Condition

variable {d : Directory} {c : LocalContext} {s : Session} {k : Key} {side : Side}

private theorem kernelmap_isSome (h : ShownBy d c) (k : Key) : (c.kernelmap k).isSome = (d.kernelAt k).isSome := by
  rw [← h.kernels, Option.isSome_map]

private theorem nodemap_isSome (h : ShownBy d c) (k : Key) : (c.nodemap k).isSome = (d.nodeAt k).isSome := by
  rw [← h.nodes, Option.isSome_map]

private theorem ports_isSome (h : ShownBy d c) (side : Side) (k : Key) :
    (c.ports side k).isSome = (d.portAt side k).isSome := by
  have hview := congrArg Option.isSome (h.ports side k)
  rwa [Option.isSome_map, Option.isSome_map] at hview

private theorem known_iff (h : ShownBy d c) (k : Key) : Known c k ↔ (d.entries k).isSome := by
  unfold Known
  rw [kernelmap_isSome h, nodemap_isSome h]
  simp only [ports_isSome h]
  unfold Directory.kernelAt Directory.nodeAt Directory.portAt
  cases d.entries k with
  | none => simp
  | some e => cases e <;> simp [Directory.Entry.kernel?, Directory.Entry.node?, Directory.Entry.port?]

private theorem Distinct.put (h : Distinct d) {e : Entry}
    (he : ∀ node, e = .node node → ∀ side name, (node.ports side name).isSome → node.ports side.other name = none) :
    Distinct (d.put k e) := by
  intro k' node hk'
  rw [Directory.put_entries] at hk'
  split_ifs at hk' with heq
  · cases hk'
    exact he node rfl
  · exact h k' node hk'

private theorem Distinct.addPort (h : Distinct d) {node : Node} {name : String} (hk : d.entries k = some (.node node))
    (hother : node.ports side.other name = none) : Distinct (d.addPort side k node name) := by
  have hadd : Distinct (d.add (.port side { name := name, nodekey := k, kernelkey := node.kernelkey })) :=
    Distinct.put (d := d) h fun node heq => by cases heq
  refine Distinct.put hadd fun node' heq side' name' => ?_
  cases heq
  rw [Directory.Node.withPort_ports, Directory.Node.withPort_ports]
  have hold := h k node hk side' name'
  by_cases hname : name' = name
  · subst hname
    cases side <;> cases side' <;> simp_all [Side.other]
  · simpa [hname] using hold

private theorem Distinct.after (h : Distinct d) (hc : ShownBy d c) {call : Call} (hagreed : Agreed c call) :
    Distinct (d.after call) := by
  cases call with
  | setupKernel name hostname servname =>
    rw [Directory.after]
    split_ifs
    · exact h
    · exact Distinct.put (d := d) h fun node heq => by cases heq
  | createNodeKey kernelkey nodename =>
    rw [Directory.after]
    split_ifs
    · exact h
    · refine Distinct.put (d := d) h fun node heq side name hsome => ?_
      cases heq
      rfl
  | getCreatePortKey side nodekey portname =>
    rw [Directory.after]
    split
    · rename_i node hnode
      split_ifs with hport
      · exact h
      · refine h.addPort (Directory.nodeAt_eq.1 hnode) ?_
        rw [← hc.nodes] at hnode
        obtain ⟨info, hinfo, rfl⟩ := Option.map_eq_some_iff.1 hnode
        exact hagreed.2 info hinfo (Option.not_isSome_iff_eq_none.1 hport)
    · exact h
  | connectEndpoints writerkey readerkey qname =>
    rw [Directory.after]
    split
    · refine Distinct.put (Distinct.put h fun node heq => ?_) fun node heq => ?_
      · cases heq
      · cases heq
    · exact h
  | _ => exact h

end Condition

/-! ### The calls of both contexts -/

/-- The call fails in another way than by `std::invalid_argument`, or it returns where it should throw, or it returns a key
that has been given out where it should return a new one. -/
def Differs {σ : Type} (d : Directory) (call : Call) (r : EStateM.Result Stop σ Answer) : Prop :=
  (d.answer call = none ∧ ∀ what s, r ≠ .error (.invalidArgument what) s) ∨
    ∃ k s, k ≤ d.counter ∧ d.answer call = some (.key (d.counter + 1)) ∧ r = .ok (.key k) s

/-- The remote context answers as the directory does, and follows it. -/
def Answers (d : Directory) (call : Call) (s : Session) : Prop :=
  ∃ s', Gives (onRemote call s) (d.answer call) s' ∧ Follows (d.after call) s'

section Calls

variable {d : Directory} {c : LocalContext} {s : Session} {call : Call}

private theorem differs_of_ok {σ : Type} {r : EStateM.Result Stop σ Answer} (hnone : d.answer call = none)
    (h : ∃ a s, r = .ok a s) : Differs d call r := by
  obtain ⟨a, s, rfl⟩ := h
  refine .inl ⟨hnone, fun what s heq => ?_⟩
  cases heq

private theorem differs_of_error {σ : Type} {r : EStateM.Result Stop σ Answer} (hnone : d.answer call = none)
    (h : ∃ stop s, r = .error stop s ∧ ∀ what, stop ≠ .invalidArgument what) : Differs d call r := by
  obtain ⟨stop, s, rfl, hstop⟩ := h
  refine .inl ⟨hnone, fun what s heq => ?_⟩
  cases heq
  exact hstop what rfl

/-- A call agrees or differs, as the condition says. -/
def Decided (d : Directory) (c : LocalContext) (s : Session) (call : Call) : Prop :=
  (Agreed c call ∧ Answers d call s) ∨ (¬ Agreed c call ∧ Differs d call (onRemote call s))

/-- A call that leaves the registry as it is. -/
theorem answers_of_gives {s' : Session} (hs : Follows d s') (answer : Option Answer)
    (h : Gives (onRemote call s) answer s') (hanswer : d.answer call = answer) (hafter : d.after call = d) :
    Answers d call s :=
  ⟨s', hanswer.symm ▸ h, hafter.symm ▸ hs⟩

private theorem decided_setupKernel (hc : ShownBy d c) (hd : d.Sound) (hs : Follows d s) (name hostname servname : String) :
    Decided d c s (.setupKernel name hostname servname) := by
  by_cases hname : c.kernelnames name = none
  · have hfree : d.kernelnames name = none := by rw [← hc.kernelnames, hname]
    obtain ⟨s', hrun, hfollows⟩ := hs.setupKernel hd hfree hostname servname
    refine .inl ⟨hname, s', ?_, ?_⟩
    · rw [Directory.answer, hfree]
      exact bind_ok hrun
    · rw [Directory.after, hfree]
      exact hfollows
  · have htaken : (d.kernelnames name).isSome := by
      rw [← hc.kernelnames]
      exact Option.isSome_iff_ne_none.2 hname
    refine .inr ⟨hname, differs_of_error (if_pos htaken) ?_⟩
    obtain ⟨s', hwaits⟩ : ∃ s', Session.ask (.setupKernel name hostname servname)
        "Cannot create two kernels with the same name" s = .error .waits s' := by
      have hrun : Server.handle s.name (s.trancounter + 1) (.setupKernel name hostname servname) s.drained.server =
          .ok () s.drained.server := Server.setupKernel_taken (by rw [hs.shows.kernelmap]; exact htaken)
      refine hs.ask_waits ?_
      rw [hrun]
      exact hs.shows.sent
    refine ⟨.waits, s', bind_error (bind_error hwaits), fun what heq => ?_⟩
    cases heq

private theorem decided_createNodeKey (hs : Follows d s) (kernelkey : Key) (nodename : String) :
    Decided d c s (.createNodeKey kernelkey nodename) := by
  refine .inl ⟨trivial, ?_⟩
  by_cases hname : d.nodenames nodename = none
  · obtain ⟨s', hrun, hfollows⟩ := hs.createNodeKey hname kernelkey
    refine ⟨s', ?_, ?_⟩
    · rw [Directory.answer, hname]
      exact bind_ok hrun
    · rw [Directory.after, hname]
      exact hfollows
  · have htaken : (d.nodenames nodename).isSome := Option.isSome_iff_ne_none.2 hname
    have hthrow : Session.ask (.createNodeKey kernelkey nodename) ("Node " ++ nodename ++ " already exists.") s =
        .error _ _ := hs.ask_throws (Server.createNodeKey_taken (by rw [hs.shows.nodemap]; exact htaken)) hs.shows.sent
    refine ⟨s.afterCall s.drained.server, ?_, ?_⟩
    · rw [Directory.answer, if_pos htaken]
      exact ⟨_, bind_error (bind_error hthrow)⟩
    · rw [Directory.after, if_pos htaken]
      exact .afterCall hs.shows s

private theorem decided_getKernelKey (hd : d.Sound) (hs : Follows d s) (kernel : String) :
    Decided d c s (.getKernelKey kernel) := by
  refine .inl ⟨trivial, ?_⟩
  rcases hs.getKernelInfo_cases (.inl kernel) "No such kernel" with ⟨s', hrun, hfollows, hnone⟩ |
    ⟨k, name, info, s', hkey, hk, hinfo, hrun, hfollows⟩ | ⟨k, e, s', hkey, hk, hother, -⟩
  · have hname : d.kernelnames kernel = none := by
      by_contra hne
      obtain ⟨k, hk⟩ := Option.ne_none_iff_exists'.1 hne
      have hkind := hd.kernelnames kernel k hk
      rw [Server.keyOf, hk, Option.bind_some] at hnone
      rw [Directory.kindAt, hnone] at hkind
      cases hkind
    refine answers_of_gives hfollows none ⟨_, bind_error (bind_error hrun)⟩ ?_ rfl
    rw [Directory.answer, hname]
    rfl
  · have hname : d.kernelnames kernel = some k := hkey
    refine answers_of_gives hfollows (some (.key k)) ?_ ?_ rfl
    · have hcall : Session.getKernelKey kernel s = .ok (number (some info) Info.key) s' := bind_ok hrun
      rw [number, Option.bind_some, hinfo.2.1] at hcall
      exact bind_ok hcall
    · rw [Directory.answer, hname]
      rfl
  · have hkind := hd.kernelnames kernel k hkey
    rw [Directory.kindAt, hk] at hkind
    have hkernel := Directory.Entry.kernel?_isSome.2 (Option.some.inj hkind)
    rw [hother] at hkernel
    cases hkernel

private theorem decided_getKernelName (hc : ShownBy d c) (hs : Follows d s) (kernelkey : Key) :
    Decided d c s (.getKernelName kernelkey) := by
  have hagreed : Agreed c (.getKernelName kernelkey) ↔
      ((d.entries kernelkey).isSome → (d.kernelAt kernelkey).isSome) := by
    rw [← known_iff hc, ← kernelmap_isSome hc]
    rfl
  rw [Decided, hagreed]
  rcases hs.getKernelInfo_cases (.inr kernelkey) "No such kernel" with ⟨s', hrun, hfollows, hnone⟩ |
    ⟨k, name, info, s', hkey, hk, hinfo, hrun, hfollows⟩ | ⟨k, e, s', hkey, hk, hother, hrun⟩
  · have hentry : d.entries kernelkey = none := hnone
    refine .inl ⟨fun hsome => ?_, answers_of_gives hfollows none ⟨_, bind_error (bind_error hrun)⟩ ?_ rfl⟩
    · rw [hentry] at hsome
      cases hsome
    · rw [Directory.answer, Directory.kernelAt, hentry]
      rfl
  · cases hkey
    have hat := Directory.kernelAt_eq.2 hk
    refine .inl ⟨fun _ => by rw [hat]; rfl, answers_of_gives hfollows (some (.name name)) ?_ ?_ rfl⟩
    · have hcall : Session.getKernelName kernelkey s = .ok (text (some info) Info.name) s' := bind_ok hrun
      rw [text, Option.bind_some, hinfo.2.2.1] at hcall
      exact bind_ok hcall
    · rw [Directory.answer, hat]
      rfl
  · cases hkey
    have hat : d.kernelAt kernelkey = none := by rw [Directory.kernelAt, hk, Option.bind_some, hother]
    refine .inr ⟨fun hsome => ?_, differs_of_error ?_ ⟨.waits, s', bind_error (bind_error hrun), fun what heq => ?_⟩⟩
    · rw [hk, hat] at hsome
      exact Bool.false_ne_true (hsome rfl)
    · rw [Directory.answer, hat]
      rfl
    · cases heq

private theorem decided_getNodeKey (hd : d.Sound) (hs : Follows d s) (nodename : String) :
    Decided d c s (.getNodeKey nodename) := by
  refine .inl ⟨trivial, ?_⟩
  rcases hs.getNodeInfo_cases (.inl nodename) "No such node" with ⟨s', hrun, hfollows, hnone⟩ |
    ⟨k, node, info, s', hkey, hk, hinfo, hrun, hfollows⟩ | ⟨k, e, s', hkey, hk, hother, -⟩
  · have hname : d.nodenames nodename = none := by
      by_contra hne
      obtain ⟨k, hk⟩ := Option.ne_none_iff_exists'.1 hne
      obtain ⟨kernelkey, hkind⟩ := hd.nodenames nodename k hk
      rw [Server.keyOf, hk, Option.bind_some] at hnone
      rw [Directory.kindAt, hnone] at hkind
      cases hkind
    refine answers_of_gives hfollows none ⟨_, bind_error (bind_error hrun)⟩ ?_ rfl
    rw [Directory.answer, hname]
    rfl
  · have hname : d.nodenames nodename = some k := hkey
    refine answers_of_gives hfollows (some (.key k)) ?_ ?_ rfl
    · have hcall : Session.getNodeKey nodename s = .ok (number (some info) Info.key) s' := bind_ok hrun
      rw [number, Option.bind_some, hinfo.2.1] at hcall
      exact bind_ok hcall
    · rw [Directory.answer, hname]
      rfl
  · obtain ⟨kernelkey, hkind⟩ := hd.nodenames nodename k hkey
    rw [Directory.kindAt, hk] at hkind
    have hnode := Directory.Entry.node?_isSome.2 ⟨kernelkey, Option.some.inj hkind⟩
    rw [hother] at hnode
    cases hnode

/-- The calls that read a member of a node. -/
theorem decided_getNode (hc : ShownBy d c) (hs : Follows d s) {nodekey : Key} (f : Node → Answer) (g : Info → Answer)
    (hok : ∀ info s', Session.ask (.getNodeInfo (.inr nodekey)) "No such node" s =
      .ok { success := true, nodeinfo := some info } s' → onRemote call s = .ok (g info) s')
    (herror : ∀ stop s', Session.ask (.getNodeInfo (.inr nodekey)) "No such node" s = .error stop s' →
      onRemote call s = .error stop s')
    (hfg : ∀ node info, ShowsEntry nodekey (.node node) info → g info = f node)
    (hanswer : d.answer call = (d.nodeAt nodekey).map f) (hafter : d.after call = d)
    (hagreed : Agreed c call ↔ (Known c nodekey → (c.nodemap nodekey).isSome)) : Decided d c s call := by
  rw [known_iff hc, nodemap_isSome hc] at hagreed
  rw [Decided, hagreed]
  rcases hs.getNodeInfo_cases (.inr nodekey) "No such node" with ⟨s', hrun, hfollows, hnone⟩ |
    ⟨k, node, info, s', hkey, hk, hinfo, hrun, hfollows⟩ | ⟨k, e, s', hkey, hk, hother, hrun⟩
  · have hentry : d.entries nodekey = none := hnone
    refine .inl ⟨fun hsome => ?_, answers_of_gives hfollows none ⟨_, herror _ _ hrun⟩ ?_ hafter⟩
    · rw [hentry] at hsome
      cases hsome
    · rw [hanswer, Directory.nodeAt, hentry]
      rfl
  · cases hkey
    have hat := Directory.nodeAt_eq.2 hk
    refine .inl ⟨fun _ => by rw [hat]; rfl, answers_of_gives hfollows (some (f node)) ?_ ?_ hafter⟩
    · rw [← hfg node info hinfo]
      exact hok info s' hrun
    · rw [hanswer, hat]
      rfl
  · cases hkey
    have hat : d.nodeAt nodekey = none := by rw [Directory.nodeAt, hk, Option.bind_some, hother]
    refine .inr ⟨fun hsome => ?_, differs_of_error ?_ ⟨.waits, s', herror _ _ hrun, fun what heq => ?_⟩⟩
    · rw [hk, hat] at hsome
      exact Bool.false_ne_true (hsome rfl)
    · rw [hanswer, hat]
      rfl
    · cases heq

/-- The calls that read a member of a port. -/
theorem decided_getPort (hc : ShownBy d c) (hs : Follows d s) {side : Side} {portkey : Key} (f : Port → Answer)
    (g : Info → Answer)
    (hok : ∀ info s', Session.getEndpointInfo side portkey s = .ok (some info) s' → onRemote call s = .ok (g info) s')
    (herror : ∀ stop s', Session.getEndpointInfo side portkey s = .error stop s' → onRemote call s = .error stop s')
    (hfg : ∀ port info, ShowsEntry portkey (.port side port) info → g info = f port)
    (hanswer : d.answer call = (d.portAt side portkey).map f) (hafter : d.after call = d)
    (hagreed : Agreed c call ↔ (c.ports side portkey).isSome) : Decided d c s call := by
  rw [ports_isSome hc] at hagreed
  rw [Decided, hagreed]
  have hnone (hnever : ∀ port, d.entries portkey ≠ some (.port side port)) : d.portAt side portkey = none := by
    by_contra hne
    obtain ⟨port, hport⟩ := Option.ne_none_iff_exists'.1 hne
    exact hnever port (Directory.portAt_eq.1 hport)
  rcases hs.getEndpointInfo_cases side portkey with ⟨side', port, info, s', hk, hinfo, hrun, hfollows⟩ |
    ⟨hnever, stop, s', hrun, hstop⟩
  · by_cases hside : side' = side
    · subst hside
      have hat := Directory.portAt_eq.2 hk
      refine .inl ⟨by rw [hat]; rfl, answers_of_gives hfollows (some (f port)) ?_ ?_ hafter⟩
      · rw [← hfg port info hinfo]
        exact hok info s' hrun
      · rw [hanswer, hat]
        rfl
    · -- the port of the other side is taken for one of this side
      have hat := hnone fun port' hk' => by
        rw [hk] at hk'
        cases hk'
        exact hside rfl
      refine .inr ⟨fun hsome => ?_, differs_of_ok ?_ ⟨_, s', hok info s' hrun⟩⟩
      · rw [hat] at hsome
        cases hsome
      · rw [hanswer, hat]
        rfl
  · have hat := hnone (hnever side)
    refine .inr ⟨fun hsome => ?_, differs_of_error ?_ ⟨stop, s', herror _ _ hrun, hstop⟩⟩
    · rw [hat] at hsome
      cases hsome
    · rw [hanswer, hat]
      rfl

/-- The signals of a node, which are sent whatever the key is. -/
theorem decided_signalNode (hc : ShownBy d c) {nodekey : Key} {msg : ClientMessage}
    (hrun : onRemote call s = .ok .done (s.post msg))
    (hfollows : ∀ node, d.entries nodekey = some (.node node) → Follows d (s.post msg))
    (hanswer : d.answer call = (d.nodeAt nodekey).map fun _ => .done) (hafter : d.after call = d)
    (hagreed : Agreed c call ↔ (c.nodemap nodekey).isSome) : Decided d c s call := by
  rw [nodemap_isSome hc] at hagreed
  rw [Decided, hagreed]
  cases hat : d.nodeAt nodekey with
  | some node =>
    rw [hat] at hanswer
    exact .inl ⟨rfl, answers_of_gives (hfollows node (Directory.nodeAt_eq.1 hat)) (some .done) hrun hanswer hafter⟩
  | none =>
    rw [hat] at hanswer
    exact .inr ⟨Bool.false_ne_true, differs_of_ok hanswer ⟨_, _, hrun⟩⟩

private theorem decided_connectEndpoints (hc : ShownBy d c) (hs : Follows d s) (writerkey readerkey : Key) (qname : String) :
    Decided d c s (.connectEndpoints writerkey readerkey qname) := by
  have hrun : onRemote (.connectEndpoints writerkey readerkey qname) s =
      .ok .done (s.post (.connectEndpoints writerkey readerkey qname)) :=
    bind_ok ((bind_ok hs.check).trans rfl)
  have hagreed : Agreed c (.connectEndpoints writerkey readerkey qname) ↔
      (d.portAt .writer writerkey).isSome ∧ (d.portAt .reader readerkey).isSome := by
    rw [← ports_isSome hc, ← ports_isSome hc]
    rfl
  rw [Decided, hagreed]
  cases hw : d.portAt .writer writerkey with
  | none =>
    refine .inr ⟨fun hsome => Bool.false_ne_true hsome.1, differs_of_ok ?_ ⟨_, _, hrun⟩⟩
    rw [Directory.answer, hw]
    rfl
  | some writer =>
    cases hr : d.portAt .reader readerkey with
    | none =>
      refine .inr ⟨fun hsome => Bool.false_ne_true hsome.2, differs_of_ok ?_ ⟨_, _, hrun⟩⟩
      rw [Directory.answer, hw, hr]
      rfl
    | some reader =>
      refine .inl ⟨⟨rfl, rfl⟩, s.post (.connectEndpoints writerkey readerkey qname), ?_, ?_⟩
      · rw [Directory.answer, hw, hr]
        exact hrun
      · rw [Directory.after, hw, hr]
        exact hs.connectEndpoints (Directory.portAt_eq.1 hw) (Directory.portAt_eq.1 hr) qname

/-- The key that a node has for an endpoint, with the port that is under it. -/
theorem exists_port (hd : d.Sound) {k k' : Key} {node : Node} {side : Side} {name : String}
    (hk : d.entries k = some (.node node)) (hport : node.ports side name = some k') :
    ∃ port, d.entries k' = some (.port side port) ∧ k' ≤ d.counter := by
  have hkind : d.kindAt k' = some (.port side) := hd.refers k _ hk side name k' hport
  obtain ⟨port, hat⟩ := Option.isSome_iff_exists.1 (Directory.portAt_isSome.2 hkind)
  exact ⟨port, Directory.portAt_eq.1 hat, hd.fresh k' (by rw [hkind]; exact Option.some_ne_none _)⟩

private theorem agreed_getCreatePortKey (hc : ShownBy d c) {side : Side} {k : Key} {name : String} :
    Agreed c (.getCreatePortKey side k name) ↔ ((d.entries k).isSome → (d.nodeAt k).isSome) ∧
      ∀ node, d.nodeAt k = some node → node.ports side name = none → node.ports side.other name = none := by
  rw [← known_iff hc, ← nodemap_isSome hc]
  refine and_congr Iff.rfl ⟨fun h node hnode => ?_, fun h info hinfo => ?_⟩
  · rw [← hc.nodes] at hnode
    obtain ⟨info, hinfo, rfl⟩ := Option.map_eq_some_iff.1 hnode
    exact h info hinfo
  · exact h _ (Directory.nodeAt_eq.2 (hc.node hinfo))

private theorem decided_getCreatePortKey (hc : ShownBy d c) (hd : d.Sound) (hdist : Distinct d) (hs : Follows d s)
    (side : Side)
    (k : Key) (name : String) : Decided d c s (.getCreatePortKey side k name) := by
  rw [Decided, agreed_getCreatePortKey hc]
  cases hk : d.entries k with
  | none =>
    have hat : d.nodeAt k = none := by
      rw [Directory.nodeAt, hk]
      rfl
    have hthrow : Session.ask (.getCreateEndpointKey side k name) "No such port" s = .error _ _ :=
      hs.ask_throws (Server.getCreateEndpointKey_none (hs.shows.absent k hk)) hs.shows.sent
    refine .inl ⟨⟨fun hsome => ?_, fun node hnode => ?_⟩,
      answers_of_gives (.afterCall hs.shows s) none ⟨_, bind_error (bind_error hthrow)⟩ ?_ ?_⟩
    · cases hsome
    · rw [hat] at hnode
      cases hnode
    · rw [Directory.answer, hat]
      rfl
    · rw [Directory.after, hat]
  | some e =>
    obtain ⟨info, hdata, hinfo⟩ := hs.shows.present k e hk
    have hother (hends : info.endpoints = none) (hat : d.nodeAt k = none) :
        Decided d c s (.getCreatePortKey side k name) := by
      have hep : Server.endpoint (some info) name = none := Server.endpoint_none hends
      rw [Decided, agreed_getCreatePortKey hc]
      refine .inr ⟨fun hagreed => ?_, differs_of_ok ?_ ⟨_, _, bind_ok (hs.getCreateEndpointKey_new hdata hep)⟩⟩
      · have hsome := hagreed.1 (by rw [hk]; rfl)
        rw [hat] at hsome
        cases hsome
      · rw [Directory.answer, hat]
        rfl
    cases e with
    | kernel kname =>
      have hdecided := hother hinfo.2.2.2 (by rw [Directory.nodeAt, hk]; rfl)
      rwa [Decided, agreed_getCreatePortKey hc, hk] at hdecided
    | port side' port =>
      have hdecided := hother hinfo.2.2.2.2.2.2 (by rw [Directory.nodeAt, hk]; rfl)
      rwa [Decided, agreed_getCreatePortKey hc, hk] at hdecided
    | node node =>
      have hat := Directory.nodeAt_eq.2 hk
      have hends : Server.endpoint (some info) name = (node.ports side name).or (node.ports side.other name) := by
        rw [hinfo.2.2.2.2]
        cases side with
        | reader => rfl
        | writer =>
          cases hr : node.ports .reader name with
          | none =>
            rw [show Side.writer.other = Side.reader from rfl, hr, Option.or_none]
            rfl
          | some kr =>
            rw [show Side.writer.other = Side.reader from rfl, hr]
            have hnone := hdist k node hk .reader name (by rw [hr]; rfl)
            rw [show Side.reader.other = Side.writer from rfl] at hnone
            rw [hnone]
            rfl
      cases hport : node.ports side name with
      | some kp =>
        obtain ⟨port, hentry, -⟩ := exists_port hd hk hport
        obtain ⟨s', hrun, hfollows⟩ := hs.getCreateEndpointKey_run side hdata (hends.trans (by rw [hport]; rfl)) hentry
        refine .inl ⟨⟨fun _ => by rw [hat]; rfl, fun node' hnode' hnone => ?_⟩,
          answers_of_gives hfollows (some (.key kp)) (bind_ok hrun) ?_ ?_⟩
        · rw [hat] at hnode'
          cases hnode'
          rw [hport] at hnone
          cases hnone
        · rw [Directory.answer, hat, Option.map_some, hport]
          rfl
        · rw [Directory.after, hat]
          dsimp only
          rw [hport]
          rfl
      | none =>
        have hanswer : d.answer (.getCreatePortKey side k name) = some (.key (d.counter + 1)) := by
          rw [Directory.answer, hat, Option.map_some, hport]
          rfl
        have hafter : d.after (.getCreatePortKey side k name) = d.addPort side k node name := by
          rw [Directory.after, hat]
          dsimp only
          rw [hport]
          rfl
        rw [hport] at hends
        cases hop : node.ports side.other name with
        | none =>
          rw [hop] at hends
          refine .inl ⟨⟨fun _ => by rw [hat]; rfl, fun node' hnode' _ => ?_⟩, _, ?_,
            hafter ▸ hs.addPort hd hk hinfo hop⟩
          · rw [hat] at hnode'
            cases hnode'
            exact hop
          · rw [hanswer]
            exact bind_ok (hs.getCreateEndpointKey_new hdata hends)
        | some kp =>
          -- the endpoint of the other side is taken for the one that is asked for
          rw [hop] at hends
          obtain ⟨port, hentry, hle⟩ := exists_port hd hk hop
          obtain ⟨s', hrun, -⟩ := hs.getCreateEndpointKey_run side hdata hends hentry
          refine .inr ⟨fun hagreed => ?_, .inr ⟨kp, s', hle, hanswer, bind_ok hrun⟩⟩
          have hnone := hagreed.2 node hat hport
          rw [hop] at hnone
          cases hnone

/-- Every call is answered as the directory answers it, or differs from that, as the condition says. -/
theorem decided (hc : ShownBy d c) (hd : d.Sound) (hdist : Distinct d) (hs : Follows d s) (call : Call) :
    Decided d c s call := by
  cases call with
  | setupKernel name hostname servname => exact decided_setupKernel hc hd hs name hostname servname
  | getKernelKey kernel => exact decided_getKernelKey hd hs kernel
  | getKernelName kernelkey => exact decided_getKernelName hc hs kernelkey
  | createNodeKey kernelkey nodename => exact decided_createNodeKey hs kernelkey nodename
  | getNodeKey nodename => exact decided_getNodeKey hd hs nodename
  | getNodeName nodekey =>
    exact decided_getNode hc hs _ (fun info => .name (text (some info) Info.name)) (fun _ _ hrun => bind_ok (bind_ok hrun))
      (fun _ _ hrun => bind_error (bind_error hrun))
      (fun node info hinfo => congrArg (fun n => Answer.name (n.getD "null")) hinfo.2.2.1) rfl rfl Iff.rfl
  | getNodeKernel nodekey =>
    exact decided_getNode hc hs _ (fun info => .key (number (some info) Info.kernelkey))
      (fun _ _ hrun => bind_ok (bind_ok hrun)) (fun _ _ hrun => bind_error (bind_error hrun))
      (fun node info hinfo => congrArg (fun k => Answer.key (k.getD 0)) hinfo.2.2.2.1) rfl rfl Iff.rfl
  | signalNodeStart nodekey =>
    exact decided_signalNode hc (bind_ok ((bind_ok hs.check).trans rfl)) (fun node hnode => hs.signalNodeStart hnode) rfl rfl
      Iff.rfl
  | signalNodeEnd nodekey =>
    exact decided_signalNode hc (bind_ok rfl) (fun node hnode => hs.signalNodeEnd hnode) rfl rfl Iff.rfl
  | getCreatePortKey side nodekey portname => exact decided_getCreatePortKey hc hd hdist hs side nodekey portname
  | getPortNode side portkey =>
    exact decided_getPort hc hs _ (fun info => .key (number (some info) Info.nodekey))
      (fun _ _ hrun => bind_ok (bind_ok hrun)) (fun _ _ hrun => bind_error (bind_error hrun))
      (fun port info hinfo => congrArg (fun k => Answer.key (k.getD 0)) hinfo.2.2.2.1) rfl rfl Iff.rfl
  | getPortKernel side portkey =>
    exact decided_getPort hc hs _ (fun info => .key (number (some info) Info.kernelkey))
      (fun _ _ hrun => bind_ok (bind_ok hrun)) (fun _ _ hrun => bind_error (bind_error hrun))
      (fun port info hinfo => congrArg (fun k => Answer.key (k.getD 0)) hinfo.2.2.2.2.1) rfl rfl Iff.rfl
  | getPortName side portkey =>
    exact decided_getPort hc hs _ (fun info => .name (text (some info) Info.name)) (fun _ _ hrun => bind_ok (bind_ok hrun))
      (fun _ _ hrun => bind_error (bind_error hrun))
      (fun port info hinfo => congrArg (fun n => Answer.name (n.getD "null")) hinfo.2.2.1) rfl rfl Iff.rfl
  | connectEndpoints writerkey readerkey qname => exact decided_connectEndpoints hc hs writerkey readerkey qname
  | getOpposingPort side portkey =>
    cases side with
    | reader =>
      exact decided_getPort hc hs _ (fun info => .key (number (some info) Info.writerkey))
        (fun _ _ hrun => bind_ok (bind_ok hrun)) (fun _ _ hrun => bind_error (bind_error hrun))
        (fun port info hinfo => congrArg Answer.key hinfo.2.2.2.2.2.1) rfl rfl Iff.rfl
    | writer =>
      exact decided_getPort hc hs _ (fun info => .key (number (some info) Info.readerkey))
        (fun _ _ hrun => bind_ok (bind_ok hrun)) (fun _ _ hrun => bind_error (bind_error hrun))
        (fun port info hinfo => congrArg Answer.key hinfo.2.2.2.2.2.1) rfl rfl Iff.rfl

end Calls

/-! ### Side by side -/

inductive PairAct
  | call (call : Call)
  /-- The server dispatches a message. -/
  | serve

/-- A local context and a remote context that are given the same calls. -/
def sideBySide : Machine (LocalContext × Session) PairAct where
  init p := p.1 = {} ∧ ∃ name, p.2 = { name := name }
  next p
    | .call call => some (final (call.onLocal p.1), final (onRemote call p.2))
    | .serve => some (p.1, p.2.serve)

def AgreedStep (p : LocalContext × Session) : PairAct → Prop
  | .call call => Agreed p.1 call
  | .serve => True

/-- The results are the same up to a renaming of the keys, and `std::invalid_argument` is thrown by both or by neither. -/
def SameResult (ρ : Key → Key) : EStateM.Result Stop LocalContext Answer → EStateM.Result Stop Session Answer → Prop
  | .ok a _, .ok b _ => b = a.rename ρ
  | .error (.invalidArgument _) _, .error (.invalidArgument _) _ => True
  | _, _ => False

section Pair

variable {d : Directory} {c c' : LocalContext} {s s' : Session} {call : Call}

private theorem sameResult_of_gives {answer : Option Answer} (hc : Gives (call.onLocal c) answer c')
    (hs : Gives (onRemote call s) answer s') : SameResult id (call.onLocal c) (onRemote call s) := by
  cases answer with
  | some a =>
    have hlocal : call.onLocal c = .ok a c' := hc
    have hremote : onRemote call s = .ok a s' := hs
    rw [hlocal, hremote]
    exact a.rename_id.symm
  | none =>
    obtain ⟨_, hlocal⟩ := hc
    obtain ⟨_, hremote⟩ := hs
    rw [hlocal, hremote]
    trivial

/-- A renaming that keeps the keys that have been given out apart from new ones does not make the results the same. -/
theorem not_sameResult_of_differs {ρ : Key → Key} (hρ : Function.Injective ρ)
    (hold : ∀ k, k ≤ d.counter → ρ k = k) (hc : Gives (call.onLocal c) (d.answer call) c')
    (h : Differs d call (onRemote call s)) :
    ¬ SameResult ρ (call.onLocal c) (onRemote call s) := by
  rcases h with ⟨hnone, hthrow⟩ | ⟨k, s', hk, hanswer, hremote⟩
  · rw [hnone] at hc
    obtain ⟨what, hlocal⟩ := hc
    rw [hlocal]
    intro hsame
    cases hremote : onRemote call s with
    | ok a s' =>
      rw [hremote] at hsame
      exact hsame
    | error stop s' =>
      cases stop with
      | invalidArgument what => exact hthrow what s' hremote
      | assertion what | shutdown | waits | undefined =>
        rw [hremote] at hsame
        exact hsame
  · rw [hanswer] at hc
    have hlocal : call.onLocal c = .ok (.key (d.counter + 1)) c' := hc
    rw [hlocal, hremote]
    intro hsame
    have hkeys : k = ρ (d.counter + 1) := Answer.key.inj hsame
    have hsucc : d.counter + 1 = k := hρ (hkeys.symm.trans (hold k hk).symm)
    exact absurd (hsucc ▸ hk) (Nat.not_succ_le_self _)

/-- Both contexts show one directory. -/
def Together (p : LocalContext × Session) : Prop :=
  ∃ d : Directory, d.Sound ∧ Distinct d ∧ ShownBy d p.1 ∧ Follows d p.2

private theorem together_of_reachableBy {p : LocalContext × Session} (h : sideBySide.ReachableBy AgreedStep p) :
    Together p := by
  refine h.invariant (fun p hp => ?_) fun p a p' hp hagreed hnext => ?_
  · obtain ⟨hlocal, name, hremote⟩ := hp
    refine ⟨{}, ⟨fun _ _ hk => ?_, fun _ _ hk => ?_, fun _ hk => absurd rfl hk, fun _ _ hk => ?_⟩,
      fun _ _ hk => ?_, ?_, ?_⟩
    · cases hk
    · cases hk
    · cases hk
    · cases hk
    · rw [hlocal]
      exact ⟨rfl, rfl, rfl, rfl, fun _ => rfl, fun _ => rfl, fun _ _ => rfl⟩
    · rw [hremote]
      refine ⟨rfl, ⟨rfl, rfl, rfl, rfl, rfl, fun _ _ => rfl, fun _ _ hk => ?_⟩, fun _ _ hmem => ?_⟩
      · cases hk
      · cases hmem
  · obtain ⟨d, hd, hdist, hc, hs⟩ := hp
    cases a with
    | serve =>
      cases hnext
      exact ⟨d, hd, hdist, hc, hs.serve⟩
    | call call =>
      cases hnext
      obtain ⟨c', hlocal, hc'⟩ := hc.call hd call
      rcases decided hc hd hdist hs call with ⟨-, s', hremote, hs'⟩ | ⟨hnot, -⟩
      · refine ⟨d.after call, hd.after call, hdist.after hc hagreed, ?_, ?_⟩
        · rw [hlocal.final]
          exact hc'
        · rw [hremote.final]
          exact hs'
      · exact absurd hagreed hnot

/-- After calls that both contexts treat alike, the next call has the same result in both exactly when it is such a call,
under the same keys; and no renaming of the keys that are still to come makes up for one that is not. -/
theorem remote_like_local_iff (h : sideBySide.ReachableBy AgreedStep (c, s)) (call : Call) :
    (Agreed c call → SameResult id (call.onLocal c) (onRemote call s)) ∧
    (¬ Agreed c call → ∀ ρ : Key → Key, Function.Injective ρ → (∀ k, k ≤ c.counter → ρ k = k) →
      ¬ SameResult ρ (call.onLocal c) (onRemote call s)) := by
  obtain ⟨d, hd, hdist, hc, hs⟩ := together_of_reachableBy h
  obtain ⟨c', hlocal, -⟩ := hc.call hd call
  rcases decided hc hd hdist hs call with ⟨hagreed, s', hremote, -⟩ | ⟨hnot, hdiffers⟩
  · exact ⟨fun _ => sameResult_of_gives hlocal hremote, fun hnot => absurd hagreed hnot⟩
  · refine ⟨fun hagreed => absurd hagreed hnot, fun _ ρ hρ hold => ?_⟩
    exact not_sameResult_of_differs hρ (fun k hk => hold k (le_of_le_of_eq hk hc.counter.symm)) hlocal hdiffers

/-- A kernel that has been set up is found under its name, and cannot be set up again in the same way. -/
theorem remote_like_local_iff_kernel : ∃ c s,
    SameResult id ((Call.getKernelKey "kernel").onLocal c) (onRemote (.getKernelKey "kernel") s) ∧
    ¬ SameResult id ((Call.setupKernel "kernel" "host" "5000").onLocal c)
      (onRemote (.setupKernel "kernel" "host" "5000") s) := by
  have hinit : sideBySide.ReachableBy AgreedStep ({}, { name := "client" }) := .init ⟨rfl, "client", rfl⟩
  have hagreed : AgreedStep ({}, { name := "client" }) (.call (.setupKernel "kernel" "host" "5000")) := rfl
  have hrun := hinit.step hagreed rfl
  refine ⟨_, _, (remote_like_local_iff hrun (.getKernelKey "kernel")).1 trivial, ?_⟩
  refine (remote_like_local_iff hrun (.setupKernel "kernel" "host" "5000")).2 (fun hfree => ?_) id
    Function.injective_id fun _ _ => rfl
  cases hfree

/-- A node with a reader of some name. -/
def readerCalls : List PairAct :=
  [.call (.setupKernel "kernel" "host" "5000"), .call (.createNodeKey 1 "node"), .call (.getCreatePortKey .reader 2 "port")]

/-- The writer of the name of a reader is the reader. -/
theorem getCreateWriterKey_reader : ∃ c s, sideBySide.Reachable (c, s) ∧
    (∃ c', (Call.getCreatePortKey .reader 2 "port").onLocal c = .ok (.key 3) c') ∧
    (∃ s', onRemote (.getCreatePortKey .reader 2 "port") s = .ok (.key 3) s') ∧
    (∃ c', (Call.getCreatePortKey .writer 2 "port").onLocal c = .ok (.key 4) c') ∧
    ∃ s', onRemote (.getCreatePortKey .writer 2 "port") s = .ok (.key 3) s' := by
  obtain ⟨p, hp⟩ : ∃ p, sideBySide.runBy (fun _ _ => True) ({}, {}) readerCalls = some p := ⟨_, rfl⟩
  refine ⟨p.1, p.2, .of_runBy (.init ⟨rfl, "", rfl⟩) hp, ?_⟩
  cases hp
  exact ⟨⟨_, rfl⟩, ⟨_, rfl⟩, ⟨_, rfl⟩, _, rfl⟩

end Pair

end ProcessNetwork.RemoteContext
