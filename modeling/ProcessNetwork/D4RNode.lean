import ProcessNetwork.D4RTag

/-!
# Nodes of the deadlock detection

`Block` gives a node a tag of its own with a count above that of the node it blocks on, and `Transmit` lets the public tag
rise to the tag of that node, with the smaller of the two priorities.
-/

namespace ProcessNetwork.D4R

structure Node where
  publicTag : Tag
  privateTag : Tag
deriving DecidableEq, Repr

/-- `Transmit` has set the public tag, and returns. -/
structure Transmitted where
  node : Node
  changed : Bool := false
  detect : Bool := false

namespace Node

def create (key : UInt64) : Node where
  publicTag := .ofKey key
  privateTag := .ofKey key

def block (t : Tag) (qsize : UInt32) (n : Node) : Node :=
  let tag := (n.privateTag.setQueueSize qsize.toUInt64).setCount (max n.publicTag.count t.count + 1)
  { privateTag := tag, publicTag := tag }

def transmit (t : Tag) (n : Node) : Transmitted :=
  if n.publicTag < t then
    { node := { n with publicTag := t.setPriority (min n.privateTag.priority t.priority) }, changed := true }
  else if n.publicTag = t then { node := n, detect := n.publicTag.priority = n.privateTag.priority }
  else { node := n }

/-- The count of the next `Block` does not wrap. -/
def Fits (t : Tag) (n : Node) : Prop := n.publicTag.count.toNat + 1 < 2 ^ 64 ∧ t.count.toNat + 1 < 2 ^ 64

/-- The node has a tag of its own, and its public tag has come from it. -/
structure Sound (key : UInt64) (n : Node) : Prop where
  labelKey : n.privateTag.key = key
  priorityKey : n.privateTag.queueKey = key
  label : n.privateTag.label ≤ n.publicTag.label
  priority : n.publicTag.priority ≤ n.privateTag.priority

variable {n : Node} {t : Tag} {key : UInt64} {qsize : UInt32}

theorem Sound.create (key : UInt64) : Sound key (create key) := ⟨rfl, rfl, le_refl _, le_refl _⟩

theorem Sound.block (h : Sound key n) (t : Tag) (qsize : UInt32) : Sound key (n.block t qsize) :=
  ⟨h.labelKey, h.priorityKey, le_refl _, le_refl _⟩

/-- The public tag is the private one. -/
@[simp] theorem block_publicTag : (n.block t qsize).publicTag = (n.block t qsize).privateTag := rfl

private theorem count_lt_block (qsize : UInt32) (hfits : n.Fits t) :
    n.publicTag.count < (n.block t qsize).publicTag.count ∧ t.count < (n.block t qsize).publicTag.count := by
  obtain ⟨hpublic, ht⟩ := hfits
  have hcount : (n.block t qsize).publicTag.count = max n.publicTag.count t.count + 1 := rfl
  rw [hcount, UInt64.lt_iff_toNat_lt, UInt64.lt_iff_toNat_lt]
  have hmax : max n.publicTag.count t.count = if n.publicTag.count ≤ t.count then t.count else n.publicTag.count := rfl
  rw [hmax]
  split_ifs with hle
  · rw [UInt64.le_iff_toNat_le] at hle
    rw [UInt64.toNat_add, UInt64.toNat_one, Nat.mod_eq_of_lt ht]
    omega
  · rw [UInt64.le_iff_toNat_le] at hle
    rw [UInt64.toNat_add, UInt64.toNat_one, Nat.mod_eq_of_lt hpublic]
    omega

/-- The new label is above the one of the node and the one of the node that it blocks on. -/
theorem label_lt_block (qsize : UInt32) (hfits : n.Fits t) : n.publicTag.label < (n.block t qsize).publicTag.label ∧
    t.label < (n.block t qsize).publicTag.label := by
  obtain ⟨hpublic, ht⟩ := count_lt_block qsize hfits
  exact ⟨UInt128.lt_of_high_lt hpublic, UInt128.lt_of_high_lt ht⟩

/-- What `Transmit` does with a tag: it takes it over with the smaller priority, it finds it equal, or it is past it. -/
inductive TransmitOutcome (t : Tag) (n : Node) : Transmitted → Prop
  | raised (h : n.publicTag < t) : TransmitOutcome t n
      { node := { n with publicTag := t.setPriority (min n.privateTag.priority t.priority) }, changed := true }
  | met (h : n.publicTag = t) :
      TransmitOutcome t n { node := n, detect := n.publicTag.priority = n.privateTag.priority }
  | past (h : t < n.publicTag) : TransmitOutcome t n { node := n }

theorem transmit_outcome (t : Tag) (n : Node) : TransmitOutcome t n (n.transmit t) := by
  unfold transmit
  split_ifs with hlt heq
  · exact .raised hlt
  · exact .met heq
  · exact .past ((lt_or_gt_of_ne heq).resolve_left hlt)

theorem transmit_privateTag (t : Tag) (n : Node) : (n.transmit t).node.privateTag = n.privateTag := by
  unfold transmit
  split_ifs
  · rfl
  · rfl
  · rfl

/-- A tag that is taken over is not above what the public tag becomes. -/
theorem le_setPriority (t : Tag) (p : UInt128) : t ≤ t.setPriority (min p t.priority) :=
  (Tag.le_iff _ _).2 (.inr ⟨rfl, min_le_right _ _⟩)

theorem le_transmit (t : Tag) (n : Node) :
    n.publicTag ≤ (n.transmit t).node.publicTag ∧ t ≤ (n.transmit t).node.publicTag := by
  have houtcome := transmit_outcome t n
  generalize n.transmit t = r at houtcome ⊢
  cases houtcome with
  | raised h => exact ⟨h.le.trans (le_setPriority t _), le_setPriority t _⟩
  | met h => exact ⟨le_refl _, h.ge⟩
  | past h => exact ⟨le_refl _, h.le⟩

theorem Sound.transmit (h : Sound key n) (t : Tag) : Sound key (n.transmit t).node := by
  have houtcome := transmit_outcome t n
  generalize n.transmit t = r at houtcome ⊢
  cases houtcome with
  | raised hlt =>
    have hlabel : n.publicTag.label ≤ t.label := Tag.label_le hlt.le
    exact ⟨h.labelKey, h.priorityKey, h.label.trans hlabel, min_le_left _ _⟩
  | met heq => exact h
  | past hlt => exact h

/-- `Transmit` returns true exactly when the tag has come back with the priority of the node. -/
theorem detect_iff : (n.transmit t).detect = true ↔
    n.publicTag = t ∧ n.publicTag.priority = n.privateTag.priority := by
  unfold Node.transmit
  split_ifs with hlt heq
  · simp [hlt.ne]
  · simp [heq]
  · simp [heq]

theorem node_of_detect (h : (n.transmit t).detect = true) : (n.transmit t).node = n := by
  obtain ⟨heq, -⟩ := detect_iff.1 h
  unfold Node.transmit
  rw [if_neg (by rw [heq]; exact lt_irrefl _), if_pos heq]

end Node

end ProcessNetwork.D4R
