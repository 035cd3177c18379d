import ProcessNetwork.D4RQueue

/-!
# What tags can be about

The public tag of a node only rises.  A tag with the priority of a node has a label that the node has had, so the label of
the next `Block` of the node is new; and a tag that has been read from a node is not above what the node has now.
-/

namespace ProcessNetwork.D4R

open Registry (Side)

variable {ι κ : Type} {τ : Topology ι κ} {σ σ' : State ι κ} {i j o : ι} {t : Tag}

/-- The count of a `Block` that is about to happen does not wrap. -/
def Pc.Fits (n : Node) : Pc κ → Prop
  | .applying _ _ (.block _) t => n.Fits t
  | _ => True

namespace State

def publicTag (σ : State ι κ) (i : ι) : Tag := (σ.node i).publicTag

def privateTag (σ : State ι κ) (i : ι) : Tag := (σ.node i).privateTag

/-- The thread of `i` has read the tag `t` of the node `j`, and will use it. -/
def Reads (τ : Topology ι κ) (σ : State ι κ) (i j : ι) (t : Tag) : Prop :=
  ∃ q side op, σ.pc i = .applying q side op t ∧ τ.node q side.other = j

/-- The tag is the public tag of the node `j`, or has been read from it. -/
def Shows (τ : Topology ι κ) (σ : State ι κ) (j : ι) (t : Tag) : Prop := σ.publicTag j = t ∨ ∃ i, σ.Reads τ i j t

structure Tagged (τ : Topology ι κ) (σ : State ι κ) : Prop where
  sound : ∀ i, (σ.node i).Sound (τ.key i)
  read : ∀ i j t, σ.Reads τ i j t → t ≤ σ.publicTag j
  earlier : ∀ j t o, σ.Shows τ j t → t.queueKey = τ.key o → t.label ≤ (σ.publicTag o).label

/-- No node changes, and what is read is what is there. -/
theorem Tagged.keep (h : Tagged τ σ) (hnode : σ'.node = σ.node)
    (hreads : ∀ i j t, σ'.Reads τ i j t → σ.Reads τ i j t ∨ t = σ.publicTag j) : Tagged τ σ' := by
  have hpublic : σ'.publicTag = σ.publicTag := by
    funext j
    rw [publicTag, hnode, publicTag]
  refine ⟨fun i => hnode ▸ h.sound i, fun i j t hr => ?_, fun j t o hshows hkey => ?_⟩
  · rw [hpublic]
    obtain hr | rfl := hreads i j t hr
    · exact h.read i j t hr
    · exact le_refl _
  · rw [hpublic]
    obtain hp | ⟨i, hr⟩ := hshows
    · exact h.earlier j t o (.inl (by rw [← hpublic, hp])) hkey
    · obtain hr | rfl := hreads i j t hr
      · exact h.earlier j t o (.inr ⟨i, hr⟩) hkey
      · exact h.earlier j _ o (.inl rfl) hkey

theorem Tagged.init (hnode : ∀ i, σ.node i = .create (τ.key i)) (hpc : ∀ i, σ.pc i = .running) : Tagged τ σ := by
  have hreads (i j : ι) (t : Tag) : ¬ σ.Reads τ i j t := by
    rintro ⟨q, side, op, hi, -⟩
    rw [hpc] at hi
    cases hi
  refine ⟨fun i => hnode i ▸ Node.Sound.create _, fun i j t hr => absurd hr (hreads i j t), fun j t o hshows hkey => ?_⟩
  obtain rfl | ⟨i, hr⟩ := hshows
  · rw [publicTag, hnode] at hkey ⊢
    have hjo : j = o := τ.key_injective hkey
    subst hjo
    rw [publicTag, hnode]
  · exact absurd hr (hreads i j t)

variable [DecidableEq ι]

theorem update_pc {pc : Pc κ} (hpc : σ'.pc = Function.update σ.pc i pc) (j : ι) :
    j = i ∧ σ'.pc j = pc ∨ j ≠ i ∧ σ'.pc j = σ.pc j := by
  rw [hpc]
  by_cases heq : j = i
  · subst heq
    exact .inl ⟨rfl, Function.update_self ..⟩
  · exact .inr ⟨heq, Function.update_of_ne heq ..⟩

/-- The thread of `i` goes where it holds no tag. -/
theorem Reads.of_update {pc : Pc κ} (hpc : σ'.pc = Function.update σ.pc i pc)
    (hnot : ∀ q side op t, pc ≠ .applying q side op t) {i' j : ι} (h : σ'.Reads τ i' j t) : σ.Reads τ i' j t := by
  obtain ⟨q, side, op, hi, hj⟩ := h
  obtain ⟨rfl, hpc'⟩ | ⟨-, hpc'⟩ := update_pc hpc i'
  · exact absurd (hpc'.symm.trans hi) (hnot q side op t)
  · exact ⟨q, side, op, hpc'.symm.trans hi, hj⟩

/-- One node changes, and its tag rises to one that it may have. -/
theorem Tagged.raise {n : Node} (h : Tagged τ σ) (hnode : σ'.node = Function.update σ.node i n)
    (hsound : n.Sound (τ.key i)) (hle : σ.publicTag i ≤ n.publicTag)
    (hnew : ∀ o, n.publicTag.queueKey = τ.key o → n.publicTag.label ≤ (σ'.publicTag o).label)
    (hreads : ∀ i j t, σ'.Reads τ i j t → σ.Reads τ i j t ∨ t = σ.publicTag j) : Tagged τ σ' := by
  have hpublic (j : ι) : j = i ∧ σ'.publicTag j = n.publicTag ∨ j ≠ i ∧ σ'.publicTag j = σ.publicTag j := by
    rw [publicTag, hnode]
    by_cases heq : j = i
    · subst heq
      exact .inl ⟨rfl, by rw [Function.update_self]⟩
    · exact .inr ⟨heq, by rw [Function.update_of_ne heq]; rfl⟩
  have hmono (j : ι) : σ.publicTag j ≤ σ'.publicTag j := by
    obtain ⟨rfl, hj⟩ | ⟨-, hj⟩ := hpublic j
    · rw [hj]
      exact hle
    · exact hj.ge
  refine ⟨fun j => ?_, fun i' j t hr => ?_, fun j t o hshows hkey => ?_⟩
  · rw [hnode]
    by_cases heq : j = i
    · subst heq
      rw [Function.update_self]
      exact hsound
    · rw [Function.update_of_ne heq]
      exact h.sound j
  · obtain hr | rfl := hreads i' j t hr
    · exact (h.read i' j t hr).trans (hmono j)
    · exact hmono j
  · obtain hp | ⟨i', hr⟩ := hshows
    · obtain ⟨-, hj⟩ | ⟨-, hj⟩ := hpublic j
      · rw [← hp, hj] at hkey ⊢
        exact hnew o hkey
      · exact (h.earlier j t o (.inl (hj.symm.trans hp)) hkey).trans (Tag.label_le (hmono o))
    · obtain hr | rfl := hreads i' j t hr
      · exact (h.earlier j t o (.inr ⟨i', hr⟩) hkey).trans (Tag.label_le (hmono o))
      · exact (h.earlier j _ o (.inl rfl) hkey).trans (Tag.label_le (hmono o))

/-- What a tag that is taken over can become. -/
theorem Tagged.transmit (h : Tagged τ σ) (hr : σ.Reads τ i j t)
    (hnode : σ'.node = Function.update σ.node i ((σ.node i).transmit t).node)
    (hreads : ∀ i j t, σ'.Reads τ i j t → σ.Reads τ i j t ∨ t = σ.publicTag j) : Tagged τ σ' := by
  have hle := (Node.le_transmit t (σ.node i)).1
  have hmono (o : ι) : (σ.publicTag o).label ≤ (σ'.publicTag o).label := by
    rw [publicTag, publicTag, hnode]
    by_cases heq : o = i
    · subst heq
      rw [Function.update_self]
      exact Tag.label_le hle
    · rw [Function.update_of_ne heq]
  refine h.raise hnode ((h.sound i).transmit t) hle (fun o hkey => ?_) hreads
  have houtcome := Node.transmit_outcome t (σ.node i)
  generalize (σ.node i).transmit t = r at houtcome hnode hkey ⊢
  cases houtcome with
  | raised hlt =>
    -- the priority is the one of the node or the one of the tag
    dsimp only at hnode hkey ⊢
    rcases min_choice (σ.node i).privateTag.priority t.priority with hmin | hmin
    · have hio : i = o := by
        refine τ.key_injective ?_
        rw [← hkey, ← (h.sound i).priorityKey]
        exact congrArg UInt128.low hmin.symm
      subst hio
      rw [publicTag, hnode, Function.update_self]
    · have hkey' : t.queueKey = τ.key o := by
        rw [← hkey]
        exact congrArg UInt128.low hmin.symm
      exact (h.earlier j t o (.inr ⟨i, hr⟩) hkey').trans (hmono o)
  | met heq => exact (h.earlier i _ o (.inl rfl) hkey).trans (hmono o)
  | past hlt => exact (h.earlier i _ o (.inl rfl) hkey).trans (hmono o)

private theorem Tagged.block (h : Tagged τ σ) {qsize : UInt32} (hfits : (σ.node i).Fits t)
    (hnode : σ'.node = Function.update σ.node i ((σ.node i).block t qsize))
    (hreads : ∀ i j t, σ'.Reads τ i j t → σ.Reads τ i j t ∨ t = σ.publicTag j) : Tagged τ σ' := by
  have hlt := (Node.label_lt_block qsize hfits).1
  refine h.raise hnode ((h.sound i).block t qsize) ((Tag.le_iff _ _).2 (.inl hlt)) (fun o hkey => ?_) hreads
  have hio : i = o := τ.key_injective (((h.sound i).block t qsize).priorityKey.symm.trans hkey)
  subst hio
  rw [publicTag, hnode, Function.update_self]

/-- The tags of the other nodes do not change. -/
theorem tags_of_ne {n : Node} (hnode : σ'.node = Function.update σ.node i n) (hne : j ≠ i) :
    σ'.publicTag j = σ.publicTag j ∧ σ'.privateTag j = σ.privateTag j := by
  unfold publicTag privateTag
  rw [hnode, Function.update_of_ne hne]
  exact ⟨rfl, rfl⟩

variable [DecidableEq κ]

/-- The tags of a node change by `Block` and by `Transmit` only. -/
theorem Step.node_cases (hs : Step τ σ σ' i) :
    (σ'.node = σ.node ∧ ∀ q side op t, σ.pc i ≠ .applying q side op t) ∨
    (∃ q side qsize t, σ.pc i = .applying q side (.block qsize) t ∧
      σ'.node = Function.update σ.node i ((σ.node i).block t qsize)) ∨
    ∃ q side t, σ.pc i = .applying q side .transmit t ∧
      (σ'.blocked = σ.blocked ∧ (σ'.pc i).post = some (q, side)) ∧
      σ'.node = Function.update σ.node i ((σ.node i).transmit t).node := by
  have hother {pc : Pc κ} (hpc : σ.pc i = pc) (hnode : σ'.node = σ.node) (hnot : ∀ q side op t, pc ≠ .applying q side op t) :
      σ'.node = σ.node ∧ ∀ q side op t, σ.pc i ≠ .applying q side op t := ⟨hnode, hpc ▸ hnot⟩
  have hpassing {q : κ} {side : Side} (hpc : Passing (σ.pc i) q side) (hnode : σ'.node = σ.node) :
      σ'.node = σ.node ∧ ∀ q side op t, σ.pc i ≠ .applying q side op t := by
    obtain hpc | ⟨detect, hpc, -⟩ := hpc
    · exact hother hpc hnode fun _ _ _ _ heq => by cases heq
    · exact hother hpc hnode fun _ _ _ _ heq => by cases heq
  cases hs with
  | blocks q side qsize t hpc hnode => exact .inr (.inl ⟨q, side, qsize, t, hpc, hnode⟩)
  | transmits q side t hpc hnode hpc' hblocked =>
    exact .inr (.inr ⟨q, side, t, hpc, ⟨hblocked, by rw [hpc', Function.update_self]; rfl⟩, hnode⟩)
  | idle hpc heq => exact .inl (hother hpc (congrArg node heq) fun _ _ _ _ heq => by cases heq)
  | request q side side' b hpc hend hside hnode => exact .inl (hother hpc hnode fun _ _ _ _ heq => by cases heq)
  | begins q side qsize pc hpc hend hb hop hnode => exact .inl (hother hpc hnode fun _ _ _ _ heq => by cases heq)
  | enters q side op hpc hnode => exact .inl (hother hpc hnode fun _ _ _ _ heq => by cases heq)
  | reads q side op hpc hnode => exact .inl (hother hpc hnode fun _ _ _ _ heq => by cases heq)
  | signals q q' side side' detect rest hpc hnode => exact .inl (hother hpc hnode fun _ _ _ _ heq => by cases heq)
  | leaves q side hpc hb hnode => exact .inl (hpassing hpc hnode)
  | again q side pc hpc hb hop hnode => exact .inl (hpassing hpc hnode)
  | waits q side hpc hb hf hnode => exact .inl (hpassing hpc hnode)
  | resolves q side hpc hnode => exact .inl (hother hpc hnode fun _ _ _ _ heq => by cases heq)

/-- A tag that has been read is there, or was read before. -/
theorem Step.reads_cases (hs : Step τ σ σ' i) {i' : ι} (hr : σ'.Reads τ i' j t) :
    σ.Reads τ i' j t ∨ t = σ.publicTag j := by
  have hkeep {pc : Pc κ} (hpc : σ'.pc = Function.update σ.pc i pc) (hnot : ∀ q side op t, pc ≠ .applying q side op t) :
      σ.Reads τ i' j t ∨ t = σ.publicTag j := .inl (hr.of_update hpc hnot)
  cases hs with
  | request q side side' b hpc hend hside hnode hpc' =>
    obtain ⟨q', side, op, hi, hj⟩ := hr
    exact .inl ⟨q', side, op, hpc' ▸ hi, hj⟩
  | idle hpc heq => exact .inl (heq ▸ hr)
  | begins q side qsize pc hpc hend hb hop hnode hpc' =>
    refine hkeep hpc' fun q' side' op t heq => ?_
    obtain rfl | rfl := hop
    · cases heq
    · cases heq
  | reads q side op hpc hnode hpc' =>
    obtain ⟨q', side', op', hi, hj⟩ := hr
    obtain ⟨rfl, hi'⟩ | ⟨-, hi'⟩ := update_pc hpc' i'
    · rw [hi'] at hi
      cases hi
      exact .inr (by rw [← hj]; rfl)
    · exact .inl ⟨q', side', op', hi'.symm.trans hi, hj⟩
  | again q side pc hpc hb hop hnode hpc' =>
    refine hkeep hpc' fun q' side' op t heq => ?_
    obtain rfl | rfl := hop
    · cases heq
    · cases heq
  | enters q side op hpc hnode hpc' => exact hkeep hpc' fun _ _ _ _ heq => by cases heq
  | blocks q side qsize t hpc hnode hpc' => exact hkeep hpc' fun _ _ _ _ heq => by cases heq
  | transmits q side t hpc hnode hpc' => exact hkeep hpc' fun _ _ _ _ heq => by cases heq
  | signals q q' side side' detect rest hpc hnode hpc' => exact hkeep hpc' fun _ _ _ _ heq => by cases heq
  | leaves q side hpc hb hnode hpc' => exact hkeep hpc' fun _ _ _ _ heq => by cases heq
  | waits q side hpc hb hf hnode hpc' => exact hkeep hpc' fun _ _ _ _ heq => by cases heq
  | resolves q side hpc hnode hpc' => exact hkeep hpc' fun _ _ _ _ heq => by cases heq

/-- A public tag never falls. -/
theorem Step.publicTag_mono (hs : Step τ σ σ' i) (hfits : (σ.pc i).Fits (σ.node i)) (j : ι) :
    σ.publicTag j ≤ σ'.publicTag j := by
  have hupdate {n : Node} (hnode : σ'.node = Function.update σ.node i n) (hle : σ.publicTag i ≤ n.publicTag) :
      σ.publicTag j ≤ σ'.publicTag j := by
    unfold publicTag
    rw [hnode]
    by_cases heq : j = i
    · subst heq
      rw [Function.update_self]
      exact hle
    · rw [Function.update_of_ne heq]
  obtain ⟨hnode, -⟩ | ⟨q, side, qsize, t, hpc, hnode⟩ | ⟨q, side, t, hpc, -, hnode⟩ := hs.node_cases
  · rw [publicTag, publicTag, hnode]
  · rw [hpc] at hfits
    exact hupdate hnode ((Tag.le_iff _ _).2 (.inl (Node.label_lt_block _ hfits).1))
  · exact hupdate hnode (Node.le_transmit t _).1

/-- Once `Block` has set it, the private tag of a node stays as it is. -/
theorem Step.privateTag_eq (hs : Step τ σ σ' i) (hj : (σ.pc j).post.isSome = true) :
    σ'.privateTag j = σ.privateTag j := by
  unfold privateTag
  obtain ⟨hnode, -⟩ | ⟨q, side, qsize, t, hpc, hnode⟩ | ⟨q, side, t, hpc, -, hnode⟩ := hs.node_cases
  · rw [hnode]
  · have hne : j ≠ i := by
      rintro rfl
      rw [hpc] at hj
      cases hj
    rw [hnode, Function.update_of_ne hne]
  · rw [hnode]
    by_cases heq : j = i
    · subst heq
      rw [Function.update_self, Node.transmit_privateTag]
    · rw [Function.update_of_ne heq]

theorem Tagged.step (h : Tagged τ σ) (hfits : (σ.pc i).Fits (σ.node i)) (hs : Step τ σ σ' i) : Tagged τ σ' := by
  obtain ⟨hnode, -⟩ | ⟨q, side, qsize, t, hpc, hnode⟩ | ⟨q, side, t, hpc, -, hnode⟩ := hs.node_cases
  · exact h.keep hnode fun _ _ _ hr => hs.reads_cases hr
  · rw [hpc] at hfits
    exact h.block hfits hnode fun _ _ _ hr => hs.reads_cases hr
  · exact h.transmit ⟨q, side, _, hpc, rfl⟩ hnode fun _ _ _ hr => hs.reads_cases hr

end State

end ProcessNetwork.D4R
