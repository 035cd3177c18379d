import ProcessNetwork.LocalContext

/-!
# The registry as one directory

What a context keeps, whatever its tables are: objects under keys that never change their kind, some of them found by a
name.  `LocalContext` answers every call as the directory does (`ShownBy.call`).
-/

namespace ProcessNetwork.Registry

open Exceptions

/-! ### Calls -/

/-- The calls of a context that ask the registry or change it. -/
inductive Call
  | setupKernel (name hostname servname : String)
  | getKernelKey (kernel : String)
  | getKernelName (kernelkey : Key)
  | createNodeKey (kernelkey : Key) (nodename : String)
  | getNodeKey (nodename : String)
  | getNodeName (nodekey : Key)
  | getNodeKernel (nodekey : Key)
  | signalNodeStart (nodekey : Key)
  | signalNodeEnd (nodekey : Key)
  /-- `GetCreateReaderKey` and `GetCreateWriterKey`; so the other calls with a side. -/
  | getCreatePortKey (side : Side) (nodekey : Key) (portname : String)
  | getPortNode (side : Side) (portkey : Key)
  | getPortKernel (side : Side) (portkey : Key)
  | getPortName (side : Side) (portkey : Key)
  | connectEndpoints (writerkey readerkey : Key) (qname : String)
  /-- `GetReadersWriter` and `GetWritersReader`. -/
  | getOpposingPort (side : Side) (portkey : Key)

inductive Answer
  | done
  | key (key : Key)
  | name (name : String)

def Answer.rename (ρ : Key → Key) : Answer → Answer
  | .done => .done
  | .key k => .key (ρ k)
  | .name s => .name s

theorem Answer.rename_id (a : Answer) : a.rename id = a := by
  cases a <;> rfl

section Gives

variable {σ α β : Type} {s t : σ} {x : EStateM Stop σ α} {answer : Option α}

/-- The call has returned the answer, or thrown `std::invalid_argument` when there is none, and left this state. -/
def Gives (r : EStateM.Result Stop σ α) (answer : Option α) (s : σ) : Prop :=
  match answer with
  | some a => r = .ok a s
  | none => ∃ what, r = .error (.invalidArgument what) s

theorem Gives.final {r : EStateM.Result Stop σ α} (h : Gives r answer s) : Exceptions.final r = s := by
  cases answer with
  | some a =>
    have hr : r = .ok a s := h
    rw [hr]
    rfl
  | none =>
    obtain ⟨what, rfl⟩ := h
    rfl

private theorem Gives.map (h : Gives (x s) answer t) (f : α → β) :
    Gives ((x >>= fun a => pure (f a)) s) (answer.map f) t := by
  cases answer with
  | some a => exact bind_ok h
  | none =>
    obtain ⟨what, h⟩ := h
    exact ⟨what, bind_error h⟩

/-- A call that goes on with what it has found. -/
theorem Gives.bind (h : Gives (x s) answer s) {f : α → EStateM Stop σ β} {next : α → Option β}
    (hf : ∀ a, answer = some a → Gives (f a s) (next a) t) (hnone : answer = none → t = s) :
    Gives ((x >>= f) s) (answer.bind next) t := by
  cases answer with
  | some a =>
    have hx : x s = .ok a s := h
    rw [bind_ok hx]
    exact hf a rfl
  | none =>
    obtain ⟨what, h⟩ := h
    rw [hnone rfl]
    exact ⟨what, bind_error h⟩

end Gives

/-- A call of a local context. -/
def Call.onLocal : Call → LocalContext.Proc Answer
  | setupKernel name hostname servname => do return .key (← LocalContext.setupKernel name hostname servname)
  | getKernelKey kernel => do return .key (← LocalContext.getKernelKey kernel)
  | getKernelName kernelkey => do return .name (← LocalContext.getKernelName kernelkey)
  | createNodeKey kernelkey nodename => do return .key (← LocalContext.createNodeKey kernelkey nodename)
  | getNodeKey nodename => do return .key (← LocalContext.getNodeKey nodename)
  | getNodeName nodekey => do return .name (← LocalContext.getNodeName nodekey)
  | getNodeKernel nodekey => do return .key (← LocalContext.getNodeKernel nodekey)
  | signalNodeStart nodekey => do
    LocalContext.signalNodeStart nodekey
    return .done
  | signalNodeEnd nodekey => do
    LocalContext.signalNodeEnd nodekey
    return .done
  | getCreatePortKey side nodekey portname => do return .key (← LocalContext.getCreatePortKey side nodekey portname)
  | getPortNode side portkey => do return .key (← LocalContext.getPortNode side portkey)
  | getPortKernel side portkey => do return .key (← LocalContext.getPortKernel side portkey)
  | getPortName side portkey => do return .name (← LocalContext.getPortName side portkey)
  | connectEndpoints writerkey readerkey qname => do
    LocalContext.connectEndpoints writerkey readerkey qname
    return .done
  | getOpposingPort .reader portkey => do return .key (← LocalContext.getReadersWriter portkey)
  | getOpposingPort .writer portkey => do return .key (← LocalContext.getWritersReader portkey)

/-! ### The directory -/

namespace Directory

structure Node where
  name : String
  kernelkey : Key
  ports : Side → String → Option Key := fun _ _ => none

structure Port where
  name : String
  nodekey : Key
  /-- The kernel of its node. -/
  kernelkey : Key
  opposing : Key := 0

inductive Entry
  | kernel (name : String)
  | node (node : Node)
  | port (side : Side) (port : Port)

/-- What never changes of an entry. -/
inductive Kind
  | kernel
  | node (kernelkey : Key)
  | port (side : Side)
deriving DecidableEq

namespace Entry

def kind : Entry → Kind
  | .kernel _ => .kernel
  | .node n => .node n.kernelkey
  | .port side _ => .port side

def kernel? : Entry → Option String
  | .kernel name => some name
  | _ => none

def node? : Entry → Option Node
  | .node n => some n
  | _ => none

def port? (side : Side) : Entry → Option Port
  | .port side' p => if side' = side then some p else none
  | _ => none

variable {e e' : Entry} {side : Side}

theorem kernel?_isSome : e.kernel?.isSome ↔ e.kind = .kernel := by
  cases e <;> simp [kernel?, kind]

theorem node?_isSome : e.node?.isSome ↔ ∃ kernelkey, e.kind = .node kernelkey := by
  cases e <;> simp [node?, kind]

private theorem port?_isSome : (e.port? side).isSome ↔ e.kind = .port side := by
  cases e <;> simp [port?, kind]

private theorem port?_eq_some {port : Port} : e.port? side = some port ↔ e = .port side port := by
  cases e <;> simp [port?]

private theorem node?_eq_some {node : Node} : e.node? = some node ↔ e = .node node := by
  cases e <;> simp [node?]

private theorem kernel?_eq_some {name : String} : e.kernel? = some name ↔ e = .kernel name := by
  cases e <;> simp [kernel?]

end Entry

def Node.withPort (side : Side) (name : String) (key : Key) (node : Node) : Node :=
  { node with ports := Function.update node.ports side (Function.update (node.ports side) name (some key)) }

end Directory

open Directory (Node Port Entry Kind)

structure Directory where
  kernelnames : String → Option Key := fun _ => none
  nodenames : String → Option Key := fun _ => none
  entries : Key → Option Entry := fun _ => none
  counter : Key := 0

namespace Directory

def kindAt (d : Directory) (k : Key) : Option Kind := (d.entries k).map Entry.kind

def kernelAt (d : Directory) (k : Key) : Option String := (d.entries k).bind Entry.kernel?

def nodeAt (d : Directory) (k : Key) : Option Node := (d.entries k).bind Entry.node?

def portAt (d : Directory) (side : Side) (k : Key) : Option Port := (d.entries k).bind (Entry.port? side)

def put (k : Key) (e : Entry) (d : Directory) : Directory := { d with entries := Function.update d.entries k (some e) }

/-- The directory with a new object under the next key. -/
def add (e : Entry) (d : Directory) : Directory := { d.put (d.counter + 1) e with counter := d.counter + 1 }

def addKernel (name : String) (d : Directory) : Directory :=
  { d.add (.kernel name) with kernelnames := Function.update d.kernelnames name (some (d.counter + 1)) }

def addNode (kernelkey : Key) (name : String) (d : Directory) : Directory :=
  { d.add (.node { name := name, kernelkey := kernelkey }) with
    nodenames := Function.update d.nodenames name (some (d.counter + 1)) }

def addPort (side : Side) (nodekey : Key) (node : Node) (name : String) (d : Directory) : Directory :=
  (d.add (.port side { name := name, nodekey := nodekey, kernelkey := node.kernelkey })).put nodekey
    (.node (node.withPort side name (d.counter + 1)))

def connect (writerkey : Key) (writer : Port) (readerkey : Key) (reader : Port) (d : Directory) : Directory :=
  (d.put writerkey (.port .writer { writer with opposing := readerkey })).put readerkey
    (.port .reader { reader with opposing := writerkey })

/-- What a call returns; `none` is `std::invalid_argument`. -/
def answer (d : Directory) : Call → Option Answer
  | .setupKernel name _ _ => if (d.kernelnames name).isSome then none else some (.key (d.counter + 1))
  | .getKernelKey kernel => (d.kernelnames kernel).map .key
  | .getKernelName kernelkey => (d.kernelAt kernelkey).map .name
  | .createNodeKey _ nodename => if (d.nodenames nodename).isSome then none else some (.key (d.counter + 1))
  | .getNodeKey nodename => (d.nodenames nodename).map .key
  | .getNodeName nodekey => (d.nodeAt nodekey).map fun node => .name node.name
  | .getNodeKernel nodekey => (d.nodeAt nodekey).map fun node => .key node.kernelkey
  | .signalNodeStart nodekey | .signalNodeEnd nodekey => (d.nodeAt nodekey).map fun _ => .done
  | .getCreatePortKey side nodekey portname =>
    (d.nodeAt nodekey).map fun node => .key ((node.ports side portname).getD (d.counter + 1))
  | .getPortNode side portkey => (d.portAt side portkey).map fun port => .key port.nodekey
  | .getPortKernel side portkey => (d.portAt side portkey).map fun port => .key port.kernelkey
  | .getPortName side portkey => (d.portAt side portkey).map fun port => .name port.name
  | .connectEndpoints writerkey readerkey _ =>
    (d.portAt .writer writerkey).bind fun _ => (d.portAt .reader readerkey).map fun _ => .done
  | .getOpposingPort side portkey => (d.portAt side portkey).map fun port => .key port.opposing

/-- The directory after a call. -/
def after (d : Directory) : Call → Directory
  | .setupKernel name _ _ => if (d.kernelnames name).isSome then d else d.addKernel name
  | .createNodeKey kernelkey nodename => if (d.nodenames nodename).isSome then d else d.addNode kernelkey nodename
  | .getCreatePortKey side nodekey portname =>
    match d.nodeAt nodekey with
    | some node => if (node.ports side portname).isSome then d else d.addPort side nodekey node portname
    | none => d
  | .connectEndpoints writerkey readerkey _ =>
    match d.portAt .writer writerkey, d.portAt .reader readerkey with
    | some writer, some reader => d.connect writerkey writer readerkey reader
    | _, _ => d
  | _ => d

/-! ### Well-formed directories -/

variable {d : Directory} {k k' : Key} {e : Entry} {side : Side} {node : Node} {port : Port} {name : String} {kind : Kind}

theorem put_entries : (d.put k e).entries k' = if k' = k then some e else d.entries k' := by
  by_cases hk : k' = k <;> simp [put, hk]

theorem put_eq (h : d.entries k = some e) : d.put k e = d := by
  rw [put, ← h, Function.update_eq_self]

private theorem put_kernelAt : (d.put k e).kernelAt k' = if k' = k then e.kernel? else d.kernelAt k' := by
  unfold kernelAt
  rw [put_entries]
  split_ifs <;> rfl

private theorem put_nodeAt : (d.put k e).nodeAt k' = if k' = k then e.node? else d.nodeAt k' := by
  unfold nodeAt
  rw [put_entries]
  split_ifs <;> rfl

private theorem put_portAt : (d.put k e).portAt side k' = if k' = k then e.port? side else d.portAt side k' := by
  unfold portAt
  rw [put_entries]
  split_ifs <;> rfl

private theorem put_kindAt : (d.put k e).kindAt k' = if k' = k then some e.kind else d.kindAt k' := by
  unfold kindAt
  rw [put_entries]
  split_ifs <;> rfl

theorem kernelAt_eq : d.kernelAt k = some name ↔ d.entries k = some (.kernel name) := by
  simp [kernelAt, Option.bind_eq_some_iff, Entry.kernel?_eq_some]

theorem nodeAt_eq : d.nodeAt k = some node ↔ d.entries k = some (.node node) := by
  simp [nodeAt, Option.bind_eq_some_iff, Entry.node?_eq_some]

theorem portAt_eq : d.portAt side k = some port ↔ d.entries k = some (.port side port) := by
  simp [portAt, Option.bind_eq_some_iff, Entry.port?_eq_some]

private theorem kernelAt_isSome : (d.kernelAt k).isSome ↔ d.kindAt k = some .kernel := by
  unfold kernelAt kindAt
  cases d.entries k <;> simp [Entry.kernel?_isSome]

private theorem nodeAt_isSome : (d.nodeAt k).isSome ↔ ∃ kernelkey, d.kindAt k = some (.node kernelkey) := by
  unfold nodeAt kindAt
  cases d.entries k <;> simp [Entry.node?_isSome]

theorem portAt_isSome : (d.portAt side k).isSome ↔ d.kindAt k = some (.port side) := by
  unfold portAt kindAt
  cases d.entries k <;> simp [Entry.port?_isSome]

/-- What an entry refers to is there. -/
def Refers (d : Directory) : Entry → Prop
  | .kernel _ => True
  | .node node => ∀ side name k, node.ports side name = some k → d.kindAt k = some (.port side)
  | .port _ port => d.kindAt port.nodekey = some (.node port.kernelkey)

structure Sound (d : Directory) : Prop where
  kernelnames : ∀ name k, d.kernelnames name = some k → d.kindAt k = some .kernel
  nodenames : ∀ name k, d.nodenames name = some k → ∃ kernelkey, d.kindAt k = some (.node kernelkey)
  fresh : ∀ k, d.kindAt k ≠ none → k ≤ d.counter
  refers : ∀ k e, d.entries k = some e → d.Refers e

/-- The entry may be put under the key: what is there is of its kind. -/
def Fits (d : Directory) (k : Key) (e : Entry) : Prop := ∀ kind, d.kindAt k = some kind → kind = e.kind

private theorem Fits.of_entries {e' : Entry} (h : d.entries k = some e') (hkind : e'.kind = e.kind) : d.Fits k e := by
  intro kind hk
  rw [kindAt, h] at hk
  cases hk
  exact hkind

private theorem Sound.fits_succ (h : d.Sound) (e : Entry) : d.Fits (d.counter + 1) e := by
  intro kind hkind
  exact absurd (h.fresh _ (by rw [hkind]; exact Option.some_ne_none _)) (Nat.not_succ_le_self _)

theorem Sound.entries_succ (h : d.Sound) : d.entries (d.counter + 1) = none := by
  by_contra hne
  have hkind : d.kindAt (d.counter + 1) ≠ none := by
    rw [kindAt]
    exact fun hnone => hne (Option.map_eq_none_iff.1 hnone)
  exact absurd (h.fresh _ hkind) (Nat.not_succ_le_self _)

theorem Sound.ne_succ (h : d.Sound) (he : d.entries k = some e) : k ≠ d.counter + 1 := by
  rintro rfl
  rw [h.entries_succ] at he
  cases he

private theorem Fits.kindAt_put (h : d.Fits k e) (hkind : d.kindAt k' = some kind) : (d.put k e).kindAt k' = some kind := by
  rw [put_kindAt]
  split_ifs with heq
  · rw [h kind (heq ▸ hkind)]
  · exact hkind

private theorem Fits.refers_put (h : d.Fits k e) {e' : Entry} (he' : d.Refers e') : (d.put k e).Refers e' := by
  cases e' with
  | kernel name => trivial
  | node node => exact fun side name k' hk' => h.kindAt_put (he' side name k' hk')
  | port side port => exact h.kindAt_put he'

private theorem Fits.kernelAt_eq_none (h : d.Fits k e) (he : e.kernel? = none) : d.kernelAt k = none := by
  by_contra hne
  have hkind := kernelAt_isSome.1 (Option.isSome_iff_ne_none.2 hne)
  have hsome := Entry.kernel?_isSome.2 (h _ hkind).symm
  rw [he] at hsome
  cases hsome

private theorem Fits.nodeAt_eq_none (h : d.Fits k e) (he : e.node? = none) : d.nodeAt k = none := by
  by_contra hne
  obtain ⟨kernelkey, hkind⟩ := nodeAt_isSome.1 (Option.isSome_iff_ne_none.2 hne)
  have hsome := Entry.node?_isSome.2 ⟨kernelkey, (h _ hkind).symm⟩
  rw [he] at hsome
  cases hsome

private theorem Fits.portAt_eq_none (h : d.Fits k e) (he : e.port? side = none) : d.portAt side k = none := by
  by_contra hne
  have hkind := portAt_isSome.1 (Option.isSome_iff_ne_none.2 hne)
  have hsome := Entry.port?_isSome.2 (h _ hkind).symm
  rw [he] at hsome
  cases hsome

/-- What fits and refers to what is there may be put under a key that has been given out. -/
theorem Sound.put (h : d.Sound) (hfits : d.Fits k e) (hkey : k ≤ d.counter) (hrefers : d.Refers e) :
    (d.put k e).Sound where
  kernelnames name k' hk' := hfits.kindAt_put (h.kernelnames name k' hk')
  nodenames name k' hk' := by
    obtain ⟨kernelkey, hkind⟩ := h.nodenames name k' hk'
    exact ⟨kernelkey, hfits.kindAt_put hkind⟩
  fresh k' hk' := by
    rw [put_kindAt] at hk'
    split_ifs at hk' with heq
    · exact heq ▸ hkey
    · exact h.fresh k' hk'
  refers k' e' he' := by
    rw [put_entries] at he'
    split_ifs at he' with heq
    · cases he'
      exact hfits.refers_put hrefers
    · exact hfits.refers_put (h.refers k' e' he')

private theorem Sound.add (h : d.Sound) (hrefers : d.Refers e) : (d.add e).Sound := by
  have hcount : Sound { d with counter := d.counter + 1 } :=
    ⟨h.kernelnames, h.nodenames, fun k hk => Nat.le_succ_of_le (h.fresh k hk), h.refers⟩
  exact hcount.put (h.fits_succ e) (le_refl _) hrefers

private theorem add_kindAt : (d.add e).kindAt (d.counter + 1) = some e.kind := by
  change (d.put (d.counter + 1) e).kindAt (d.counter + 1) = _
  rw [put_kindAt, if_pos rfl]

private theorem Sound.addKernel (h : d.Sound) (name : String) : (d.addKernel name).Sound := by
  have hadd : (d.add (.kernel name)).Sound := h.add trivial
  refine ⟨fun name' k hk => ?_, hadd.nodenames, hadd.fresh, hadd.refers⟩
  dsimp only [Directory.addKernel] at hk
  by_cases heq : name' = name
  · subst heq
    rw [Function.update_self] at hk
    cases hk
    exact add_kindAt
  · rw [Function.update_of_ne heq] at hk
    exact hadd.kernelnames name' k hk

private theorem Sound.addNode (h : d.Sound) (kernelkey : Key) (name : String) : (d.addNode kernelkey name).Sound := by
  have hrefers : d.Refers (.node { name := name, kernelkey := kernelkey }) := fun side name k hk => by cases hk
  have hadd := h.add hrefers
  refine ⟨hadd.kernelnames, fun name' k hk => ?_, hadd.fresh, hadd.refers⟩
  dsimp only [Directory.addNode] at hk
  by_cases heq : name' = name
  · subst heq
    rw [Function.update_self] at hk
    cases hk
    exact ⟨kernelkey, add_kindAt⟩
  · rw [Function.update_of_ne heq] at hk
    exact hadd.nodenames name' k hk

theorem Node.withPort_ports (side' : Side) (name' : String) : (node.withPort side name k).ports side' name' =
    if side' = side ∧ name' = name then some k else node.ports side' name' := by
  by_cases hside : side' = side
  · subst hside
    by_cases hname : name' = name <;> simp [Node.withPort, hname]
  · simp [Node.withPort, hside]

private theorem Sound.addPort (h : d.Sound) (hnode : d.entries k = some (.node node)) (side : Side) (name : String) :
    (d.addPort side k node name).Sound := by
  have hkind : d.kindAt k = some (.node node.kernelkey) := by
    rw [kindAt, hnode]
    rfl
  have hne := h.ne_succ hnode
  have hadd : (d.add (.port side { name := name, nodekey := k, kernelkey := node.kernelkey })).Sound := h.add hkind
  have hold : (d.add (.port side { name := name, nodekey := k, kernelkey := node.kernelkey })).entries k =
      some (.node node) := by
    change (d.put (d.counter + 1) _).entries k = _
    rw [put_entries, if_neg hne, hnode]
  refine hadd.put (.of_entries hold rfl) (Nat.le_succ_of_le (h.fresh k (by rw [hkind]; exact Option.some_ne_none _)))
    fun side' name' k' hk' => ?_
  rw [Node.withPort_ports] at hk'
  split_ifs at hk' with heq
  · cases hk'
    rw [heq.1]
    exact add_kindAt
  · exact hadd.refers k _ hold side' name' k' hk'

private theorem Sound.setOpposing (h : d.Sound) (hport : d.entries k = some (.port side port)) (opposing : Key) :
    (d.put k (.port side { port with opposing := opposing })).Sound := by
  have hkind : d.kindAt k ≠ none := by
    rw [kindAt, hport]
    exact Option.some_ne_none _
  have hrefers : d.Refers (.port side port) := h.refers k _ hport
  exact h.put (.of_entries hport rfl) (h.fresh k hkind) hrefers

/-- A key is not that of a reader port and of a writer port. -/
theorem ne_of_entries {writer reader : Port} {w r : Key} (hw : d.entries w = some (.port .writer writer))
    (hr : d.entries r = some (.port .reader reader)) : r ≠ w := by
  rintro rfl
  rw [hw] at hr
  cases hr

private theorem Sound.connect {writer reader : Port} {w r : Key} (h : d.Sound)
    (hw : d.entries w = some (.port .writer writer))
    (hr : d.entries r = some (.port .reader reader)) : (d.connect w writer r reader).Sound := by
  refine (h.setOpposing hw r).setOpposing ?_ w
  rw [put_entries, if_neg (ne_of_entries hw hr), hr]

theorem Sound.after (h : d.Sound) (call : Call) : (d.after call).Sound := by
  cases call with
  | setupKernel name hostname servname =>
    rw [Directory.after]
    split_ifs
    · exact h
    · exact h.addKernel name
  | createNodeKey kernelkey nodename =>
    rw [Directory.after]
    split_ifs
    · exact h
    · exact h.addNode kernelkey nodename
  | getCreatePortKey side nodekey portname =>
    rw [Directory.after]
    split
    · rename_i node hnode
      split_ifs
      · exact h
      · exact h.addPort (nodeAt_eq.1 hnode) side portname
    · exact h
  | connectEndpoints writerkey readerkey qname =>
    rw [Directory.after]
    split
    · rename_i writer reader hw hr
      exact h.connect (portAt_eq.1 hw) (portAt_eq.1 hr)
    · exact h
  | _ => exact h

end Directory

/-! ### The local context -/

open LocalContext

variable {d : Directory} {c : LocalContext} {k : Key} {side : Side} {e : Entry}

/-- The node of the directory. -/
def NodeInfo.entry (node : NodeInfo) : Node := { name := node.name, kernelkey := node.kernelkey, ports := node.ports }

/-- The port of the directory, as far as a local context has it. -/
def PortInfo.view (port : PortInfo) : String × Key × Key := (port.name, port.nodekey, port.opposingport)

def Directory.Port.view (port : Port) : String × Key × Key := (port.name, port.nodekey, port.opposing)

/-- The tables of a local context show the directory. -/
structure ShownBy (d : Directory) (c : LocalContext) : Prop where
  runs : c.shutdown = false
  counter : c.counter = d.counter
  kernelnames : c.kernelnames = d.kernelnames
  nodenames : c.nodenames = d.nodenames
  kernels : ∀ k, (c.kernelmap k).map KernelInfo.name = d.kernelAt k
  nodes : ∀ k, (c.nodemap k).map NodeInfo.entry = d.nodeAt k
  ports : ∀ side k, (c.ports side k).map PortInfo.view = (d.portAt side k).map Port.view

namespace ShownBy

theorem node (h : ShownBy d c) {node : NodeInfo} (hk : c.nodemap k = some node) :
    d.entries k = some (.node node.entry) := by
  rw [← Directory.nodeAt_eq, ← h.nodes k, hk]
  rfl

private theorem port (h : ShownBy d c) {port : PortInfo} (hk : c.ports side k = some port) :
    ∃ p, d.entries k = some (.port side p) ∧ p.view = port.view := by
  have hview := h.ports side k
  rw [hk, Option.map_some] at hview
  obtain ⟨p, hp, heq⟩ := Option.map_eq_some_iff.1 hview.symm
  exact ⟨p, Directory.portAt_eq.1 hp, heq⟩

/-- One object changes, in the table of its kind. -/
theorem put (h : ShownBy d c) (hfits : d.Fits k e) {c' : LocalContext} (hruns : c'.shutdown = c.shutdown)
    (hcounter : c'.counter = c.counter) (hkernelnames : c'.kernelnames = c.kernelnames)
    (hnodenames : c'.nodenames = c.nodenames)
    (hkernels : ∀ k', (c'.kernelmap k').map KernelInfo.name =
      if k' = k ∧ e.kernel?.isSome then e.kernel? else (c.kernelmap k').map KernelInfo.name)
    (hnodes : ∀ k', (c'.nodemap k').map NodeInfo.entry =
      if k' = k ∧ e.node?.isSome then e.node? else (c.nodemap k').map NodeInfo.entry)
    (hports : ∀ side k', (c'.ports side k').map PortInfo.view =
      if k' = k ∧ (e.port? side).isSome then (e.port? side).map Port.view else (c.ports side k').map PortInfo.view) :
    ShownBy (d.put k e) c' where
  runs := hruns.trans h.runs
  counter := hcounter.trans h.counter
  kernelnames := hkernelnames.trans h.kernelnames
  nodenames := hnodenames.trans h.nodenames
  kernels k' := by
    rw [hkernels, h.kernels, Directory.put_kernelAt]
    by_cases hk : k' = k
    · subst hk
      cases he : e.kernel? with
      | some name => simp
      | none => simp [hfits.kernelAt_eq_none he]
    · simp [hk]
  nodes k' := by
    rw [hnodes, h.nodes, Directory.put_nodeAt]
    by_cases hk : k' = k
    · subst hk
      cases he : e.node? with
      | some name => simp
      | none => simp [hfits.nodeAt_eq_none he]
    · simp [hk]
  ports side k' := by
    rw [hports, h.ports, Directory.put_portAt]
    by_cases hk : k' = k
    · subst hk
      cases he : e.port? side with
      | some name => simp
      | none => simp [hfits.portAt_eq_none he]
    · simp [hk]

private theorem setKernel (h : ShownBy d c) (kernel : KernelInfo) (hfits : d.Fits k (.kernel kernel.name)) :
    ShownBy (d.put k (.kernel kernel.name)) (c.setKernel k kernel) := by
  refine h.put hfits rfl rfl rfl rfl (fun k' => ?_) (fun k' => ?_) fun side k' => ?_
  · by_cases hk : k' = k <;> simp [LocalContext.setKernel, Directory.Entry.kernel?, hk]
  · simp [LocalContext.setKernel, Directory.Entry.node?]
  · simp [LocalContext.setKernel, Directory.Entry.port?]

private theorem setNode (h : ShownBy d c) (node : NodeInfo) (hfits : d.Fits k (.node node.entry)) :
    ShownBy (d.put k (.node node.entry)) (c.setNode k node) := by
  refine h.put hfits rfl rfl rfl rfl (fun k' => ?_) (fun k' => ?_) fun side k' => ?_
  · simp [LocalContext.setNode, Directory.Entry.kernel?]
  · rw [setNode_nodemap]
    by_cases hk : k' = k <;> simp [Directory.Entry.node?, hk]
  · simp [Directory.Entry.port?]

private theorem setPort (h : ShownBy d c) (port : PortInfo) {p : Port} (hfits : d.Fits k (.port side p))
    (hp : p.view = port.view) :
    ShownBy (d.put k (.port side p)) (c.setPort side k port) := by
  refine h.put hfits rfl rfl rfl rfl (fun k' => ?_) (fun k' => ?_) fun side' k' => ?_
  · simp [LocalContext.setPort, Directory.Entry.kernel?]
  · simp [Directory.Entry.node?]
  · rw [setPort_ports]
    by_cases hk : k' = k
    · by_cases hside : side' = side
      · simp [Directory.Entry.port?, hk, hside, hp]
      · have hside' : ¬ side = side' := fun heq => hside heq.symm
        simp [Directory.Entry.port?, hk, hside, hside']
    · simp [hk]

private theorem newKey (h : ShownBy d c) :
    ShownBy { d with counter := c.counter + 1 } { c with counter := c.counter + 1 } where
  runs := h.runs
  counter := rfl
  kernelnames := h.kernelnames
  nodenames := h.nodenames
  kernels := h.kernels
  nodes := h.nodes
  ports := h.ports

private theorem setKernelNames (h : ShownBy d c) (names : String → Option Key) :
    ShownBy { d with kernelnames := names } { c with kernelnames := names } where
  runs := h.runs
  counter := h.counter
  kernelnames := rfl
  nodenames := h.nodenames
  kernels := h.kernels
  nodes := h.nodes
  ports := h.ports

private theorem setNodeNames (h : ShownBy d c) (names : String → Option Key) :
    ShownBy { d with nodenames := names } { c with nodenames := names } where
  runs := h.runs
  counter := h.counter
  kernelnames := h.kernelnames
  nodenames := rfl
  kernels := h.kernels
  nodes := h.nodes
  ports := h.ports

private theorem setNumlivenodes (h : ShownBy d c) (n : UInt32) : ShownBy d { c with numlivenodes := n } where
  runs := h.runs
  counter := h.counter
  kernelnames := h.kernelnames
  nodenames := h.nodenames
  kernels := h.kernels
  nodes := h.nodes
  ports := h.ports

/-! The calls, one by one. -/

theorem check (h : ShownBy d c) {α : Type} {x : Proc α} {answer : Option α} {c' : LocalContext}
    (hx : Gives (x c) answer c') : Gives ((internalCheckTerminated >>= fun _ => x) c) answer c' := by
  rw [bind_ok (internalCheckTerminated_run h.runs)]
  exact hx

private theorem gives_lookup {α : Type} (entry : LocalContext → Option α) (what : String) (c : LocalContext) :
    Gives (lookup entry what c) (entry c) c := by
  cases hentry : entry c with
  | some a => exact lookup_run hentry
  | none => exact ⟨what, lookup_none hentry⟩

/-- A call that changes nothing. -/
theorem of_answer (h : ShownBy d c) {call : Call} {answer : Option Answer} (hcall : Gives (call.onLocal c) answer c)
    (hanswer : answer = d.answer call) (hafter : d.after call = d) :
    ∃ c', Gives (call.onLocal c) (d.answer call) c' ∧ ShownBy (d.after call) c' :=
  ⟨c, hanswer ▸ hcall, hafter.symm ▸ h⟩

private theorem setupKernel (h : ShownBy d c) (hd : d.Sound) (name hostname servname : String) :
    ∃ c', Gives ((Call.setupKernel name hostname servname).onLocal c)
      (d.answer (.setupKernel name hostname servname)) c' ∧
        ShownBy (d.after (.setupKernel name hostname servname)) c' := by
  rcases Bool.eq_false_or_eq_true (c.kernelnames name).isSome with hname | hname
  · have hthrow : Gives (LocalContext.setupKernel name hostname servname c) none c := by
      refine h.check ⟨"Cannot create two kernels with the same name", ?_⟩
      rw [bind_ok get_run]
      exact bind_error (throwIf_pos hname)
    rw [h.kernelnames] at hname
    exact h.of_answer (hthrow.map Answer.key) (if_pos hname).symm (if_pos hname)
  · let kernel : KernelInfo := { name := name, hostname := hostname, servname := servname, allowremote := true }
    have hrun : LocalContext.setupKernel name hostname servname c = .ok (c.counter + 1)
        { LocalContext.setKernel (c.counter + 1) kernel { c with counter := c.counter + 1 } with
          kernelnames := Function.update c.kernelnames name (some (c.counter + 1)) } := by
      unfold LocalContext.setupKernel setup
      rw [bind_ok (internalCheckTerminated_run h.runs), bind_ok get_run,
        bind_ok (throwIf_neg (by rw [hname]; exact Bool.false_ne_true))]
      rfl
    have hfits : d.Fits (c.counter + 1) (.kernel name) := h.counter ▸ hd.fits_succ _
    have hnew := (h.newKey.setKernel kernel hfits).setKernelNames
      (Function.update c.kernelnames name (some (c.counter + 1)))
    rw [h.kernelnames] at hname
    have hname' : ¬ (d.kernelnames name).isSome = true := by rw [hname]; exact Bool.false_ne_true
    have hanswer : d.answer (.setupKernel name hostname servname) = some (.key (c.counter + 1)) := by
      rw [h.counter]
      exact if_neg hname'
    have hafter : d.after (.setupKernel name hostname servname) = d.addKernel name := if_neg hname'
    rw [hanswer, hafter, Directory.addKernel, Directory.add, ← h.kernelnames, ← h.counter]
    exact ⟨_, bind_ok hrun, hnew⟩

private theorem createNodeKey (h : ShownBy d c) (hd : d.Sound) (kernelkey : Key) (nodename : String) :
    ∃ c', Gives ((Call.createNodeKey kernelkey nodename).onLocal c) (d.answer (.createNodeKey kernelkey nodename)) c' ∧
      ShownBy (d.after (.createNodeKey kernelkey nodename)) c' := by
  cases hname : c.nodenames nodename with
  | some key =>
    have hthrow : Gives (LocalContext.createNodeKey kernelkey nodename c) none c := by
      refine h.check ⟨"Node " ++ nodename ++ " already exists.", ?_⟩
      rw [bind_ok get_run, hname]
      rfl
    have hsome : (d.nodenames nodename).isSome = true := by
      rw [← h.nodenames, hname]
      rfl
    exact h.of_answer (hthrow.map Answer.key) (if_pos hsome).symm (if_pos hsome)
  | none =>
    let node : NodeInfo := { name := nodename, kernelkey := kernelkey }
    have hrun : LocalContext.createNodeKey kernelkey nodename c = .ok (c.counter + 1)
        { LocalContext.setNode (c.counter + 1) node { c with counter := c.counter + 1 } with
          nodenames := Function.update c.nodenames nodename (some (c.counter + 1)) } := by
      unfold LocalContext.createNodeKey
      rw [bind_ok (internalCheckTerminated_run h.runs), bind_ok get_run, hname]
      rfl
    have hfits : d.Fits (c.counter + 1) (.node node.entry) := h.counter ▸ hd.fits_succ _
    have hnew := (h.newKey.setNode node hfits).setNodeNames
      (Function.update c.nodenames nodename (some (c.counter + 1)))
    have hnone : ¬ (d.nodenames nodename).isSome = true := by
      rw [← h.nodenames, hname]
      exact Bool.false_ne_true
    have hanswer : d.answer (.createNodeKey kernelkey nodename) = some (.key (c.counter + 1)) := by
      rw [h.counter]
      exact if_neg hnone
    have hafter : d.after (.createNodeKey kernelkey nodename) = d.addNode kernelkey nodename := if_neg hnone
    rw [hanswer, hafter, Directory.addNode, Directory.add, ← h.nodenames, ← h.counter]
    exact ⟨_, bind_ok hrun, hnew⟩

private theorem gives_getPortNode (h : ShownBy d c) (side : Side) (portkey : Key) :
    Gives (LocalContext.getPortNode side portkey c) ((d.portAt side portkey).map Port.nodekey) c := by
  have hview : (d.portAt side portkey).map Port.nodekey = (c.ports side portkey).map PortInfo.nodekey := by
    have hmap := congrArg (Option.map fun v => v.2.1) (h.ports side portkey)
    rw [Option.map_map, Option.map_map] at hmap
    exact hmap.symm
  rw [hview]
  exact h.check ((gives_lookup _ _ c).map PortInfo.nodekey)

private theorem gives_getNodeKernel (h : ShownBy d c) (nodekey : Key) :
    Gives (LocalContext.getNodeKernel nodekey c) ((d.nodeAt nodekey).map Node.kernelkey) c := by
  have hview : (d.nodeAt nodekey).map Node.kernelkey = (c.nodemap nodekey).map NodeInfo.kernelkey := by
    rw [← h.nodes, Option.map_map]
    rfl
  rw [hview]
  exact h.check ((gives_lookup _ _ c).map NodeInfo.kernelkey)

private theorem getPortKernel (h : ShownBy d c) (hd : d.Sound) (side : Side) (portkey : Key) :
    Gives (LocalContext.getPortKernel side portkey c) ((d.portAt side portkey).map Port.kernelkey) c := by
  have hnode (k : Key) := h.gives_getNodeKernel k
  have hrun := (h.gives_getPortNode side portkey).bind (fun k _ => hnode k) fun _ => rfl
  have hsame : (((d.portAt side portkey).map Port.nodekey).bind fun k => (d.nodeAt k).map Node.kernelkey) =
      (d.portAt side portkey).map Port.kernelkey := by
    cases hport : d.portAt side portkey with
    | none => rfl
    | some port =>
      -- the node of a port is there, on the kernel of the port
      have hkind : d.kindAt port.nodekey = some (.node port.kernelkey) := hd.refers _ _ (Directory.portAt_eq.1 hport)
      obtain ⟨e, he, hk⟩ := Option.map_eq_some_iff.1 hkind
      cases e with
      | node node =>
        rw [Option.map_some, Option.bind_some, Directory.nodeAt_eq.2 he]
        exact congrArg some (Kind.node.inj hk)
      | kernel name => cases hk
      | port side port => cases hk
  rw [← hsame]
  exact hrun

private theorem signalNode (h : ShownBy d c) {call : LocalContext.Proc Unit} (mark : NodeInfo → NodeInfo)
    (hmark : ∀ node, (mark node).entry = node.entry) (count : LocalContext → LocalContext)
    (hcount : ∀ c, ShownBy d c → ShownBy d (count c)) (nodekey : Key)
    (hnone : c.nodemap nodekey = none → ∃ what, call c = .error (.invalidArgument what) c)
    (hsome : ∀ node, c.nodemap nodekey = some node →
      call c = .ok () (count (LocalContext.setNode nodekey (mark node) c))) :
    ∃ c', Gives ((do call; return Answer.done : LocalContext.Proc Answer) c) ((d.nodeAt nodekey).map fun _ => .done) c' ∧
      ShownBy d c' := by
  rw [← h.nodes, Option.map_map]
  cases hk : c.nodemap nodekey with
  | none =>
    obtain ⟨what, hrun⟩ := hnone hk
    exact ⟨c, ⟨what, bind_error hrun⟩, h⟩
  | some node =>
    refine ⟨_, bind_ok (hsome node hk), hcount _ ?_⟩
    have hentry := h.node hk
    have hset := h.setNode (mark node) (.of_entries hentry (by rw [hmark]))
    rwa [hmark, Directory.put_eq hentry] at hset

private theorem signalNodeStart (h : ShownBy d c) (nodekey : Key) :
    ∃ c', Gives ((Call.signalNodeStart nodekey).onLocal c) (d.answer (.signalNodeStart nodekey)) c' ∧ ShownBy d c' := by
  refine h.signalNode (fun node => { node with started := true }) (fun _ => rfl)
    (fun c => { c with numlivenodes := c.numlivenodes + 1 }) (fun c hc => hc.setNumlivenodes _) nodekey
    (fun hnone => ⟨"No such node", ?_⟩) fun node hnode => ?_
  · unfold LocalContext.signalNodeStart
    rw [bind_ok (internalCheckTerminated_run h.runs), bind_error (lookup_none hnone)]
  · unfold LocalContext.signalNodeStart
    rw [bind_ok (internalCheckTerminated_run h.runs), bind_ok (lookup_run hnode)]
    rfl

private theorem signalNodeEnd (h : ShownBy d c) (nodekey : Key) :
    ∃ c', Gives ((Call.signalNodeEnd nodekey).onLocal c) (d.answer (.signalNodeEnd nodekey)) c' ∧ ShownBy d c' := by
  refine h.signalNode (fun node => { node with dead := true }) (fun _ => rfl)
    (fun c => { c with numlivenodes := c.numlivenodes - 1 }) (fun c hc => hc.setNumlivenodes _) nodekey
    (fun hnone => ⟨"No such node", ?_⟩) fun node hnode => ?_
  · unfold LocalContext.signalNodeEnd
    rw [bind_error (lookup_none hnone)]
  · unfold LocalContext.signalNodeEnd
    rw [bind_ok (lookup_run hnode)]
    rfl

private theorem getCreatePortKey (h : ShownBy d c) (hd : d.Sound) (side : Side) (nodekey : Key) (portname : String) :
    ∃ c', Gives ((Call.getCreatePortKey side nodekey portname).onLocal c)
      (d.answer (.getCreatePortKey side nodekey portname)) c' ∧
        ShownBy (d.after (.getCreatePortKey side nodekey portname)) c' := by
  cases hk : c.nodemap nodekey with
  | none =>
    have hnone : d.nodeAt nodekey = none := by
      rw [← h.nodes, hk]
      rfl
    have hthrow : Gives (LocalContext.getCreatePortKey side nodekey portname c) none c := by
      refine h.check ⟨"No such node", ?_⟩
      rw [bind_error (lookup_none hk)]
    refine h.of_answer (hthrow.map Answer.key) ?_ ?_
    · rw [Directory.answer, hnone]
      rfl
    · rw [Directory.after, hnone]
  | some node =>
    have hentry := h.node hk
    have hnode : d.nodeAt nodekey = some node.entry := Directory.nodeAt_eq.2 hentry
    -- a port that has a key keeps it
    cases hport : node.ports side portname with
    | some key =>
      have hrun : Gives (LocalContext.getCreatePortKey side nodekey portname c) (some key) c :=
        getCreatePortKey_run h.runs hk hport
      have hport' : node.entry.ports side portname = some key := hport
      refine h.of_answer (hrun.map Answer.key) ?_ ?_
      · rw [Directory.answer, hnode, Option.map_some, Option.map_some, hport']
        rfl
      · rw [Directory.after, hnode]
        dsimp only
        rw [hport']
        rfl
    | none =>
      have hport' : node.entry.ports side portname = none := hport
      have hafter : d.after (.getCreatePortKey side nodekey portname) = d.addPort side nodekey node.entry portname := by
        rw [Directory.after, hnode]
        dsimp only
        rw [hport']
        rfl
      have hanswer : d.answer (.getCreatePortKey side nodekey portname) = some (.key (c.counter + 1)) := by
        rw [Directory.answer, hnode, Option.map_some, hport', h.counter]
        rfl
      let node' : NodeInfo := { node with
        ports := Function.update node.ports side (Function.update (node.ports side) portname (some (c.counter + 1))) }
      let port : PortInfo := { name := portname, nodekey := nodekey }
      have hrun : LocalContext.getCreatePortKey side nodekey portname c = .ok (c.counter + 1)
          (LocalContext.setPort side (c.counter + 1) port
            (LocalContext.setNode nodekey node' { c with counter := c.counter + 1 })) := by
        unfold LocalContext.getCreatePortKey
        rw [bind_ok (internalCheckTerminated_run h.runs), bind_ok (lookup_run hk), hport]
        rfl
      let entry : Entry := .port side { name := portname, nodekey := nodekey, kernelkey := node.kernelkey }
      have hfits : d.Fits (c.counter + 1) entry := h.counter ▸ hd.fits_succ _
      have hport := h.newKey.setPort port hfits rfl
      -- the new key is not that of the node
      have hold : (Directory.put (c.counter + 1) entry { d with counter := c.counter + 1 }).entries nodekey =
          some (.node node.entry) := by
        rw [Directory.put_entries, if_neg (h.counter ▸ hd.ne_succ hentry)]
        exact hentry
      have hnew := hport.setNode node' (.of_entries hold rfl)
      rw [hanswer, hafter, Directory.addPort, Directory.add, ← h.counter]
      exact ⟨_, bind_ok hrun, hnew⟩

private theorem connectEndpoints (h : ShownBy d c) (writerkey readerkey : Key) (qname : String) :
    ∃ c', Gives ((Call.connectEndpoints writerkey readerkey qname).onLocal c)
      (d.answer (.connectEndpoints writerkey readerkey qname)) c' ∧
        ShownBy (d.after (.connectEndpoints writerkey readerkey qname)) c' := by
  -- a port that the tables do not have is not in the directory
  have hnone {side : Side} {k : Key} (hk : c.ports side k = none) : d.portAt side k = none := by
    have hview := h.ports side k
    rw [hk, Option.map_none] at hview
    exact Option.map_eq_none_iff.1 hview.symm
  have hthrow (what : String) (hrun : LocalContext.connectEndpoints writerkey readerkey qname c =
      .error (.invalidArgument what) c) : Gives ((Call.connectEndpoints writerkey readerkey qname).onLocal c) none c :=
    ⟨what, bind_error hrun⟩
  cases hw : c.ports .writer writerkey with
  | none =>
    refine h.of_answer (hthrow "Write port does not exist." ?_) ?_ ?_
    · unfold LocalContext.connectEndpoints
      rw [bind_ok (internalCheckTerminated_run h.runs), bind_error (lookup_none hw)]
    · rw [Directory.answer, hnone hw]
      rfl
    · rw [Directory.after, hnone hw]
  | some writer =>
    obtain ⟨pw, hpw, hvieww⟩ := h.port hw
    have hatw := Directory.portAt_eq.2 hpw
    cases hr : c.ports .reader readerkey with
    | none =>
      refine h.of_answer (hthrow "Read port does not exist." ?_) ?_ ?_
      · unfold LocalContext.connectEndpoints
        rw [bind_ok (internalCheckTerminated_run h.runs), bind_ok (lookup_run hw), bind_error (lookup_none hr)]
      · rw [Directory.answer, hatw, hnone hr]
        rfl
      · rw [Directory.after, hatw, hnone hr]
    | some reader =>
      obtain ⟨pr, hpr, hviewr⟩ := h.port hr
      have hatr := Directory.portAt_eq.2 hpr
      have hanswer : d.answer (.connectEndpoints writerkey readerkey qname) = some .done := by
        rw [Directory.answer, hatw, hatr]
        rfl
      have hafter : d.after (.connectEndpoints writerkey readerkey qname) = d.connect writerkey pw readerkey pr := by
        rw [Directory.after, hatw, hatr]
      rw [hanswer, hafter]
      refine ⟨_, bind_ok (connectEndpoints_run qname h.runs hw hr), ?_⟩
      have hview {p : Port} {port : PortInfo} (h : p.view = port.view) (opposing : Key) :
          Port.view { p with opposing := opposing } =
            PortInfo.view { port with opposingport := opposing, qname := qname } := by
        obtain ⟨hname, hnode⟩ := Prod.mk.inj h
        exact congrArg₂ Prod.mk hname (congrArg₂ Prod.mk (Prod.mk.inj hnode).1 rfl)
      have hfirst := h.setPort { writer with opposingport := readerkey, qname := qname }
        (p := { pw with opposing := readerkey }) (.of_entries hpw rfl) (hview hvieww readerkey)
      -- the reader's port is another one than the writer's
      have hold : (d.put writerkey (.port .writer { pw with opposing := readerkey })).entries readerkey =
          some (.port .reader pr) := by rw [Directory.put_entries, if_neg (Directory.ne_of_entries hpw hpr), hpr]
      exact hfirst.setPort { reader with opposingport := writerkey, qname := qname }
        (p := { pr with opposing := writerkey }) (.of_entries hold rfl) (hview hviewr writerkey)

private theorem gives_getOpposingPort (h : ShownBy d c) (side : Side) (what : String) (portkey : Key) :
    Gives (getOpposingPort side what portkey c) ((d.portAt side portkey).map Port.opposing) c := by
  have hview : (d.portAt side portkey).map Port.opposing = (c.ports side portkey).map PortInfo.opposingport := by
    have hmap := congrArg (Option.map fun v => v.2.2) (h.ports side portkey)
    rw [Option.map_map, Option.map_map] at hmap
    exact hmap.symm
  rw [hview]
  exact h.check ((gives_lookup _ _ c).map PortInfo.opposingport)

private theorem gives_getPortName (h : ShownBy d c) (side : Side) (portkey : Key) :
    Gives (LocalContext.getPortName side portkey c) ((d.portAt side portkey).map Port.name) c := by
  have hview : (d.portAt side portkey).map Port.name = (c.ports side portkey).map PortInfo.name := by
    have hmap := congrArg (Option.map fun v => v.1) (h.ports side portkey)
    rw [Option.map_map, Option.map_map] at hmap
    exact hmap.symm
  rw [hview]
  exact h.check ((gives_lookup _ _ c).map PortInfo.name)

/-- A local context answers every call as the directory does that it shows. -/
theorem call (h : ShownBy d c) (hd : d.Sound) (call : Call) :
    ∃ c', Gives (call.onLocal c) (d.answer call) c' ∧ ShownBy (d.after call) c' := by
  have hread {α : Type} {call : Call} {x : Proc α} {answer : Option α} {f : α → Answer} (hx : Gives (x c) answer c)
      (hcall : call.onLocal = x >>= fun a => pure (f a)) (hanswer : d.answer call = answer.map f)
      (hafter : d.after call = d) : ∃ c', Gives (call.onLocal c) (d.answer call) c' ∧ ShownBy (d.after call) c' :=
    h.of_answer (by rw [hcall]; exact hx.map f) hanswer.symm hafter
  cases call with
  | setupKernel name hostname servname => exact h.setupKernel hd name hostname servname
  | getKernelKey kernel =>
    have hrun := h.check (gives_lookup (fun c => c.kernelnames kernel) "No such kernel" c)
    exact hread hrun rfl (by rw [Directory.answer, ← h.kernelnames]) rfl
  | getKernelName kernelkey =>
    have hrun := h.check ((gives_lookup (fun c => c.kernelmap kernelkey) "No such kernel" c).map KernelInfo.name)
    exact hread hrun rfl (by rw [Directory.answer, ← h.kernels]) rfl
  | createNodeKey kernelkey nodename => exact h.createNodeKey hd kernelkey nodename
  | getNodeKey nodename =>
    have hrun := h.check (gives_lookup (fun c => c.nodenames nodename) "No such node" c)
    exact hread hrun rfl (by rw [Directory.answer, ← h.nodenames]) rfl
  | getNodeName nodekey =>
    have hrun := (gives_lookup (fun c => c.nodemap nodekey) "No such node" c).map NodeInfo.name
    refine hread hrun rfl ?_ rfl
    rw [Directory.answer, ← h.nodes, Option.map_map, Option.map_map]
    rfl
  | getNodeKernel nodekey =>
    exact hread (h.gives_getNodeKernel nodekey) rfl (by rw [Directory.answer, Option.map_map]; rfl) rfl
  | signalNodeStart nodekey => exact h.signalNodeStart nodekey
  | signalNodeEnd nodekey => exact h.signalNodeEnd nodekey
  | getCreatePortKey side nodekey portname => exact h.getCreatePortKey hd side nodekey portname
  | getPortNode side portkey =>
    exact hread (h.gives_getPortNode side portkey) rfl (by rw [Directory.answer, Option.map_map]; rfl) rfl
  | getPortKernel side portkey =>
    exact hread (h.getPortKernel hd side portkey) rfl (by rw [Directory.answer, Option.map_map]; rfl) rfl
  | getPortName side portkey =>
    exact hread (h.gives_getPortName side portkey) rfl (by rw [Directory.answer, Option.map_map]; rfl) rfl
  | connectEndpoints writerkey readerkey qname => exact h.connectEndpoints writerkey readerkey qname
  | getOpposingPort side portkey =>
    cases side with
    | reader =>
      exact hread (h.gives_getOpposingPort .reader "Read port does not exist." portkey) rfl
        (by rw [Directory.answer, Option.map_map]; rfl) rfl
    | writer =>
      exact hread (h.gives_getOpposingPort .writer "Write port does not exist." portkey) rfl
        (by rw [Directory.answer, Option.map_map]; rfl) rfl

end ShownBy

end ProcessNetwork.Registry
