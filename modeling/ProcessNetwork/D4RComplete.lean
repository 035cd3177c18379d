import ProcessNetwork.D4RSound
import ProcessNetwork.Lib.Cycle

/-!
# Deadlocks that are detected

Once all nodes of a deadlock have gone to sleep, they have one tag.  It is the tag of exactly one of them, the one that is
blocked on the smallest queue, and for this node `Transmit` has returned true.
-/

namespace ProcessNetwork.D4R

open Registry (Side)

variable {ι κ : Type} {τ : Topology ι κ} {σ σ' : State ι κ} {a : Act ι κ} {d : ι → Tag → Prop} {i j n : ι} {q : κ}
  {side : Side} {t : Tag}

/-- The queue of a thread that is past `Block` or `Transmit` and has not begun the next exchange. -/
def Pc.rests : Pc κ → Option (κ × Side)
  | running | entering .. | reading .. | applying .. => none
  | signaling q side _ _ | waiting q side => some (q, side)

private theorem Pc.at_of_rests {pc : Pc κ} (h : pc.rests = some (q, side)) : pc.at = some (q, side) := by
  cases pc with
  | running => cases h
  | entering q side op => cases h
  | reading q side op => cases h
  | applying q side op t => cases h
  | signaling q side detect rest => exact h
  | waiting q side => exact h

/-- The thread has cleared the flag, and has not read the tag yet. -/
def Pc.starting : Pc κ → Bool
  | entering .. | reading .. => true
  | running | applying .. | signaling .. | waiting .. => false

private theorem Pc.not_starting_of_rests {pc : Pc κ} (h : pc.rests = some (q, side)) : pc.starting = false := by
  cases pc with
  | running => rfl
  | entering q side op => cases h
  | reading q side op => cases h
  | applying q side op t => rfl
  | signaling q side detect rest => rfl
  | waiting q side => rfl

namespace State

/-- Where the public tag of a node has its priority from: the node itself, the node at the other end, or it will take over a
larger tag from there. -/
inductive Earned (τ : Topology ι κ) (σ : State ι κ) : ι → Prop
  | own {i : ι} (h : (σ.pc i).post = none ∨ σ.Own i) : Earned τ σ i
  | above {i : ι} {q : κ} {side : Side} (hpost : (σ.pc i).post = some (q, side))
    (hlt : σ.publicTag i < σ.publicTag (τ.node q side.other)) : Earned τ σ i
  | same {i : ι} {q : κ} {side : Side} (hpost : (σ.pc i).post = some (q, side))
    (heq : σ.publicTag (τ.node q side.other) = σ.publicTag i) (h : Earned τ σ (τ.node q side.other)) : Earned τ σ i

/-- No tag changes, and no node calls `Block`. -/
theorem Earned.keep (h : Earned τ σ j) (hnode : σ'.node = σ.node)
    (hpost : ∀ j at', (σ'.pc j).post = some at' → (σ.pc j).post = some at') : Earned τ σ' j := by
  have hpublic (j : ι) : σ'.publicTag j = σ.publicTag j := by
    rw [publicTag, hnode]
    rfl
  have hpost' {j : ι} {q : κ} {side : Side} (hj : (σ.pc j).post = some (q, side)) :
      (σ'.pc j).post = none ∨ (σ'.pc j).post = some (q, side) := by
    rcases hnew : (σ'.pc j).post with - | at'
    · exact .inl rfl
    · exact .inr ((hpost j at' hnew).symm.trans hj)
  induction h with
  | @own j h =>
    refine .own ?_
    obtain h | h := h
    · left
      rcases hnew : (σ'.pc j).post with - | at'
      · rfl
      · exact absurd (hpost j at' hnew) (by rw [h]; exact fun heq => by cases heq)
    · right
      unfold Own publicTag privateTag at h ⊢
      rwa [hnode]
  | above hj hlt =>
    obtain hnone | hj' := hpost' hj
    · exact .own (.inl hnone)
    · exact .above hj' (by rwa [hpublic, hpublic])
  | same hj heq h ih =>
    obtain hnone | hj' := hpost' hj
    · exact .own (.inl hnone)
    · exact .same hj' (by rwa [hpublic, hpublic]) ih

/-! ### What a sleeping node knows -/

/-- The node at the other end has changed its tag, and the thread will read it again. -/
def Due (τ : Topology ι κ) (σ : State ι κ) (q : κ) (side : Side) : Prop :=
  σ.flag q side.other = true ∨ (q, side.other) ∈ (σ.pc (τ.node q side.other)).pending

def Blocks (σ : State ι κ) (a : Act ι κ) (j : ι) : Prop :=
  a.node = j ∧ ∃ q side qsize t, σ.pc j = .applying q side (.block qsize) t

def Detects (σ : State ι κ) (a : Act ι κ) (j : ι) (t : Tag) : Prop :=
  a.node = j ∧ ∃ q side, σ.pc j = .applying q side .transmit t ∧ ((σ.node j).transmit t).detect = true

/-- The tags for which `Transmit` has returned true since the last `Block` of the node. -/
def note (σ : State ι κ) (a : Act ι κ) (d : ι → Tag → Prop) (j : ι) (t : Tag) : Prop :=
  ¬ σ.Blocks a j ∧ (d j t ∨ σ.Detects a j t)

/-- The node is not behind the one at the other end, and it has noticed when the tag from there is its own. -/
def Met (σ : State ι κ) (d : ι → Tag → Prop) (i n : ι) : Prop :=
  σ.publicTag n ≤ σ.publicTag i ∧ (σ.publicTag n = σ.publicTag i → σ.Own i → d i (σ.publicTag i))

structure Informed (τ : Topology ι κ) (σ : State ι κ) (d : ι → Tag → Prop) : Prop where
  tagged : Tagged τ σ
  placed : ∀ i q side, (σ.pc i).at = some (q, side) → τ.node q side = i
  earned : ∀ i, Earned τ σ i
  current : ∀ i q side op t, σ.pc i = .applying q side op t → Due τ σ q side ∨ σ.publicTag (τ.node q side.other) = t
  met : ∀ i q side, (σ.pc i).rests = some (q, side) → Due τ σ q side ∨ σ.Met d i (τ.node q side.other)
  priority : ∀ i t, d i t → t.priority = (σ.privateTag i).priority
  /-- A reader that has detected a deadlock does not go on to wait. -/
  thrown : ∀ i q side t, d i t → (σ.pc i).post = some (q, side) →
    side = .writer ∨ ∃ rest, σ.pc i = .signaling q side true rest

private theorem Informed.init (hnode : ∀ i, σ.node i = .create (τ.key i)) (hpc : ∀ i, σ.pc i = .running) :
    Informed τ σ fun _ _ => False where
  tagged := .init hnode hpc
  placed i q side hi := by
    rw [hpc] at hi
    cases hi
  earned i := .own (.inl (by rw [hpc]; rfl))
  current i q side op t hi := by
    rw [hpc] at hi
    cases hi
  met i q side hi := by
    rw [hpc] at hi
    cases hi
  priority _ _ h := h.elim
  thrown _ _ _ _ h := h.elim

/-- A tag that is taken over does not get the priority of the node back. -/
theorem Tagged.not_own_of_raised (h : Tagged τ σ) (hshows : σ.Shows τ n t) (hlt : σ.publicTag i < t)
    (hown : t.priority = (σ.privateTag i).priority) : False := by
  have hkey : t.queueKey = τ.key i := by
    rw [← (h.sound i).priorityKey]
    exact congrArg UInt128.low hown
  have hearlier := h.earlier n t i hshows hkey
  rw [Tag.lt_iff] at hlt
  obtain hlt | ⟨-, hlt⟩ := hlt
  · exact absurd hearlier hlt.not_ge
  · have hpriority : (σ.publicTag i).priority ≤ (σ.privateTag i).priority := (h.sound i).priority
    rw [hown] at hlt
    exact absurd hpriority hlt.not_ge

/-! ### Steps -/

theorem Passing.rests {pc : Pc κ} (h : Passing pc q side) : pc.rests = some (q, side) := by
  obtain rfl | ⟨detect, rfl, -⟩ := h
  · rfl
  · rfl

variable [DecidableEq ι]

/-- The tag of one node rises.  Where the priority of a larger tag comes from does not change. -/
theorem Earned.of_lt {n' : Node} (hnode : σ'.node = Function.update σ.node i n')
    (hpost : ∀ j, j ≠ i → (σ'.pc j).post = (σ.pc j).post) (hrise : σ.publicTag i < σ'.publicTag i) (h : Earned τ σ j)
    (hlt : σ.publicTag i < σ.publicTag j) : Earned τ σ' j := by
  have hne {j : ι} (hlt : σ.publicTag i < σ.publicTag j) : j ≠ i := by
    rintro rfl
    exact lt_irrefl _ hlt
  have hmono (j : ι) : σ.publicTag j ≤ σ'.publicTag j := by
    by_cases heq : j = i
    · subst heq
      exact hrise.le
    · exact (tags_of_ne hnode heq).1.ge
  induction h with
  | @own j h =>
    obtain ⟨hpublic, hprivate⟩ := tags_of_ne hnode (hne hlt)
    rw [← hpost j (hne hlt)] at h
    unfold Own at h
    rw [← hpublic, ← hprivate] at h
    exact .own h
  | @above j q side hj hlt' =>
    have hj' := (hpost j (hne hlt)).trans hj
    refine .above hj' ?_
    rw [(tags_of_ne hnode (hne hlt)).1]
    exact hlt'.trans_le (hmono _)
  | @same j q side hj heq h ih =>
    have hnext : σ.publicTag i < σ.publicTag (τ.node q side.other) := heq ▸ hlt
    refine .same ((hpost j (hne hlt)).trans hj) ?_ (ih hnext)
    rw [(tags_of_ne hnode (hne hnext)).1, (tags_of_ne hnode (hne hlt)).1, heq]

/-- The tag of one node rises, and what it becomes comes from somewhere. -/
theorem Earned.rise {n' : Node} (hnode : σ'.node = Function.update σ.node i n')
    (hpost : ∀ j, j ≠ i → (σ'.pc j).post = (σ.pc j).post) (hrise : σ.publicTag i < σ'.publicTag i) (h : Earned τ σ j)
    (hi : Earned τ σ' i) : Earned τ σ' j := by
  have hmono (j : ι) : σ.publicTag j ≤ σ'.publicTag j := by
    by_cases heq : j = i
    · subst heq
      exact hrise.le
    · exact (tags_of_ne hnode heq).1.ge
  induction h with
  | @own j h =>
    by_cases hne : j = i
    · exact hne ▸ hi
    · obtain ⟨hpublic, hprivate⟩ := tags_of_ne hnode hne
      rw [← hpost j hne] at h
      unfold Own at h
      rw [← hpublic, ← hprivate] at h
      exact .own h
  | @above j q side hj hlt =>
    by_cases hne : j = i
    · exact hne ▸ hi
    · refine .above ((hpost j hne).trans hj) ?_
      rw [(tags_of_ne hnode hne).1]
      exact hlt.trans_le (hmono _)
  | @same j q side hj heq h ih =>
    by_cases hne : j = i
    · exact hne ▸ hi
    · have hj' := (hpost j hne).trans hj
      have hpublic := (tags_of_ne hnode hne).1
      by_cases hnext : τ.node q side.other = i
      · refine .above hj' ?_
        rw [hpublic, ← heq, hnext]
        exact hrise
      · exact .same hj' (by rw [(tags_of_ne hnode hnext).1, hpublic, heq]) ih

variable [DecidableEq κ]

/-- The threads of the other nodes stay where they are. -/
theorem Step.pc_of_ne (hs : Step τ σ σ' i) (hne : j ≠ i) : σ'.pc j = σ.pc j := by
  have hmoves {pc : Pc κ} (hpc' : σ'.pc = Function.update σ.pc i pc) : σ'.pc j = σ.pc j := by
    rw [hpc', Function.update_of_ne hne]
  cases hs with
  | request q side side' b hpc hend hside hnode hpc' => rw [hpc']
  | idle hpc heq => rw [heq]
  | begins q side qsize pc hpc hend hb hop hnode hpc' => exact hmoves hpc'
  | enters q side op hpc hnode hpc' => exact hmoves hpc'
  | reads q side op hpc hnode hpc' => exact hmoves hpc'
  | blocks q side qsize t hpc hnode hpc' => exact hmoves hpc'
  | transmits q side t hpc hnode hpc' => exact hmoves hpc'
  | signals q q' side side' detect rest hpc hnode hpc' => exact hmoves hpc'
  | leaves q side hpc hb hnode hpc' => exact hmoves hpc'
  | again q side pc hpc hb hop hnode hpc' => exact hmoves hpc'
  | waits q side hpc hb hf hnode hpc' => exact hmoves hpc'
  | resolves q side hpc hnode hpc' => exact hmoves hpc'

/-- `Block` gives the node a tag of its own, and `Transmit` one that the node at the other end has or has gone past. -/
theorem Step.earned (hs : Step τ σ σ' i) (htagged : Tagged τ σ) (hfits : (σ.pc i).Fits (σ.node i))
    (h : ∀ j, Earned τ σ j) (j : ι) : Earned τ σ' j := by
  have hpost (j : ι) (hne : j ≠ i) : (σ'.pc j).post = (σ.pc j).post := by rw [hs.pc_of_ne hne]
  have hquiet (hnode : σ'.node = σ.node) (hnot : ∀ q side qsize t, σ.pc i ≠ .applying q side (.block qsize) t) :
      Earned τ σ' j := by
    refine (h j).keep hnode fun k ⟨q, side⟩ hk => ?_
    obtain hold | ⟨-, qsize, t, hpc, -⟩ := hs.post_cases hk
    · exact hold
    · exact absurd hpc (hnot q side qsize t)
  obtain ⟨hnode, hnot⟩ | ⟨q, side, qsize, t, hpc, hnode⟩ | ⟨q, side, t, hpc, ⟨-, hpost'⟩, hnode⟩ := hs.node_cases
  · exact hquiet hnode fun q side qsize t => hnot q side _ t
  · rw [hpc] at hfits
    -- the label of a blocked node goes past both labels it has seen
    have hi : σ'.publicTag i = ((σ.node i).block t qsize).publicTag := by rw [publicTag, hnode, Function.update_self]
    have hrise : σ.publicTag i < σ'.publicTag i := by
      rw [hi, Tag.lt_iff]
      exact .inl (Node.label_lt_block _ hfits).1
    refine (h j).rise hnode hpost hrise (.own (.inr ?_))
    unfold Own publicTag privateTag
    rw [hnode, Function.update_self]
    rfl
  · have hnot (q' : κ) (side' : Side) (qsize : UInt32) (t' : Tag) : σ.pc i ≠ .applying q' side' (.block qsize) t' := by
      rw [hpc]
      exact fun heq => by cases heq
    have houtcome := Node.transmit_outcome t (σ.node i)
    generalize (σ.node i).transmit t = r at houtcome hnode
    cases houtcome with
    | met heq =>
      rw [Function.update_eq_self] at hnode
      exact hquiet hnode hnot
    | past hlt =>
      rw [Function.update_eq_self] at hnode
      exact hquiet hnode hnot
    | raised hlt =>
      have hi : σ'.publicTag i = t.setPriority (min (σ.node i).privateTag.priority t.priority) := by
        rw [publicTag, hnode, Function.update_self]
      have hrise : σ.publicTag i < σ'.publicTag i := by
        rw [hi]
        exact hlt.trans_le (Node.le_setPriority t _)
      refine (h j).rise hnode hpost hrise ?_
      -- the tag that was read is not above the present one at that end
      have hread : t ≤ σ.publicTag (τ.node q side.other) := htagged.read i _ t ⟨q, side, _, hpc, rfl⟩
      have hne : τ.node q side.other ≠ i := by
        intro heq
        rw [heq] at hread
        exact absurd hlt hread.not_gt
      have hother := (tags_of_ne hnode hne).1
      rcases min_choice (σ.node i).privateTag.priority t.priority with hmin | hmin
      · refine .own (.inr ?_)
        unfold Own
        rw [hi, privateTag, hnode, Function.update_self]
        exact hmin
      · -- the tag is taken over as it is
        have hi' : σ'.publicTag i = t := by
          rw [hi, hmin]
          rfl
        obtain heq | hlt' := hread.eq_or_lt
        · refine .same hpost' (by rw [hother, hi', heq]) ((h _).of_lt hnode hpost hrise ?_)
          rw [← heq]
          exact hlt
        · exact .above hpost' (by rwa [hother, hi'])

/-- A flag is cleared before the next exchange only. -/
theorem Step.flag_cases (hs : Step τ σ σ' i) (hplaced : ∀ i q side, (σ.pc i).at = some (q, side) → τ.node q side = i)
    (h : σ.flag q side.other = true) :
    σ'.flag q side.other = true ∨ (σ'.pc (τ.node q side)).starting = true := by
  have hclear {q' : κ} {side' : Side} {op : Op} {pc : Pc κ} (hend : τ.node q' side' = i)
      (hop : pc = .entering q' side' op ∨ pc = .reading q' side' op) (hpc' : σ'.pc = Function.update σ.pc i pc)
      (hflag : ∀ r s, σ'.flag r s = if r = q' ∧ s = side'.other then false else σ.flag r s) :
      σ'.flag q side.other = true ∨ (σ'.pc (τ.node q side)).starting = true := by
    rw [hflag]
    split_ifs with heq
    · obtain ⟨rfl, hside⟩ := heq
      obtain rfl : side = side' := by rw [← side.other_other, hside, side'.other_other]
      right
      rw [hend, hpc', Function.update_self]
      obtain rfl | rfl := hop
      · rfl
      · rfl
    · exact .inl h
  cases hs with
  | request q side side' b hpc hend hside hnode hpc' hblocked hflag => exact .inl (hflag ▸ h)
  | idle hpc heq => exact .inl (heq ▸ h)
  | begins q side qsize pc hpc hend hb hop hnode hpc' hblocked hflag => exact hclear hend hop hpc' hflag
  | enters q side op hpc hnode hpc' hblocked hflag => exact .inl (hflag ▸ h)
  | reads q side op hpc hnode hpc' hblocked hflag => exact .inl (hflag ▸ h)
  | blocks q side qsize t hpc hnode hpc' hblocked hflag => exact .inl (hflag ▸ h)
  | transmits q side t hpc hnode hpc' hblocked hflag => exact .inl (hflag ▸ h)
  | signals q q' side side' detect rest hpc hnode hpc' hblocked hflag =>
    left
    rw [hflag]
    split_ifs
    · rfl
    · exact h
  | leaves q side hpc hb hnode hpc' hblocked hflag => exact .inl (hflag ▸ h)
  | again q side pc hpc hb hop hnode hpc' hblocked hflag =>
    exact hclear (hplaced i q side (Pc.at_of_post hpc.post)) hop hpc' hflag
  | waits q side hpc hb hf hnode hpc' hblocked hflag => exact .inl (hflag ▸ h)
  | resolves q side hpc hnode hpc' hblocked hsame hflag => exact .inl (hflag ▸ h)

/-- A queue that is still to be signalled stays so, or has been. -/
theorem Step.pending_cases (hs : Step τ σ σ' i) (h : (q, side) ∈ (σ.pc j).pending) :
    (q, side) ∈ (σ'.pc j).pending ∨ σ'.flag q side = true := by
  have hempty {pc : Pc κ} (hpc : σ.pc i = pc) (hnot : pc.pending = []) :
      (q, side) ∈ (σ'.pc j).pending ∨ σ'.flag q side = true := by
    left
    rw [hs.pc_of_ne]
    · exact h
    · rintro rfl
      rw [hpc, hnot] at h
      cases h
  have hpassing {q' : κ} {side' : Side} (hpc : Passing (σ.pc i) q' side') :
      (q, side) ∈ (σ'.pc j).pending ∨ σ'.flag q side = true := by
    obtain hpc | ⟨detect, hpc, -⟩ := hpc
    · exact hempty hpc rfl
    · exact hempty hpc rfl
  cases hs with
  | request q side side' b hpc => exact hempty hpc rfl
  | idle hpc heq => exact hempty hpc rfl
  | begins q side qsize pc hpc => exact hempty hpc rfl
  | enters q side op hpc => exact hempty hpc rfl
  | reads q side op hpc => exact hempty hpc rfl
  | blocks q side qsize t hpc => exact hempty hpc rfl
  | transmits q side t hpc => exact hempty hpc rfl
  | signals q' q'' side' side'' detect rest hpc hnode hpc' hblocked hflag =>
    obtain ⟨rfl, hj⟩ | ⟨-, hj⟩ := update_pc hpc' j
    · rw [hpc] at h
      rw [hj, hflag]
      obtain heq | hrest := List.mem_cons.1 h
      · cases heq
        exact .inr (if_pos ⟨rfl, rfl⟩)
      · exact .inl hrest
    · exact .inl (hj ▸ h)
  | leaves q side hpc => exact hpassing hpc
  | again q side pc hpc => exact hpassing hpc
  | waits q side hpc => exact hpassing hpc
  | resolves q side hpc => exact hempty hpc rfl

private theorem Step.due (hs : Step τ σ σ' i) (hplaced : ∀ i q side, (σ.pc i).at = some (q, side) → τ.node q side = i)
    (h : Due τ σ q side) : Due τ σ' q side ∨ (σ'.pc (τ.node q side)).starting = true := by
  obtain h | h := h
  · obtain h' | hgone := hs.flag_cases hplaced h
    · exact .inl (.inl h')
    · exact .inr hgone
  · obtain h' | h' := hs.pending_cases h
    · exact .inl (.inr h')
    · exact .inl (.inl h')

/-- A node that changes its tag will signal all its queues. -/
theorem Step.publicTag_cases (hs : Step τ σ σ' i) (j : ι) :
    σ'.publicTag j = σ.publicTag j ∨ j = i ∧ (σ'.pc j).pending = τ.links j := by
  have hsame (hnode : σ'.node = σ.node) : σ'.publicTag j = σ.publicTag j := by
    rw [publicTag, hnode]
    rfl
  cases hs with
  | blocks q side qsize t hpc hnode hpc' =>
    obtain ⟨rfl, hj⟩ | ⟨hne, -⟩ := update_pc hpc' j
    · exact .inr ⟨rfl, by rw [hj]; rfl⟩
    · exact .inl (tags_of_ne hnode hne).1
  | transmits q side t hpc hnode hpc' =>
    obtain ⟨rfl, hj⟩ | ⟨hne, -⟩ := update_pc hpc' j
    · have houtcome := Node.transmit_outcome t (σ.node j)
      generalize (σ.node j).transmit t = r at houtcome hnode hj
      cases houtcome with
      | raised hlt => exact .inr ⟨rfl, by rw [hj]; rfl⟩
      | met heq => exact .inl (hsame (by rw [hnode, Function.update_eq_self]))
      | past hlt => exact .inl (hsame (by rw [hnode, Function.update_eq_self]))
    · exact .inl (tags_of_ne hnode hne).1
  | request q side side' b hpc hend hside hnode => exact .inl (hsame hnode)
  | idle hpc heq => exact .inl (hsame (congrArg node heq))
  | begins q side qsize pc hpc hend hb hop hnode => exact .inl (hsame hnode)
  | enters q side op hpc hnode => exact .inl (hsame hnode)
  | reads q side op hpc hnode => exact .inl (hsame hnode)
  | signals q q' side side' detect rest hpc hnode => exact .inl (hsame hnode)
  | leaves q side hpc hb hnode => exact .inl (hsame hnode)
  | again q side pc hpc hb hop hnode => exact .inl (hsame hnode)
  | waits q side hpc hb hf hnode => exact .inl (hsame hnode)
  | resolves q side hpc hnode => exact .inl (hsame hnode)

private theorem Step.due_of_changed (hs : Step τ σ σ' i) (q : κ) (side : Side) :
    σ'.publicTag (τ.node q side.other) = σ.publicTag (τ.node q side.other) ∨ Due τ σ' q side := by
  obtain hsame | ⟨-, hpending⟩ := hs.publicTag_cases (τ.node q side.other)
  · exact .inl hsame
  · refine .inr (.inr ?_)
    rw [hpending]
    exact τ.mem_links q side.other

/-- A tag that is about to be used was so before, or is there. -/
theorem Step.applying_cases {op : Op} (hs : Step τ σ σ' i) (hj : σ'.pc j = .applying q side op t) :
    σ.pc j = .applying q side op t ∨ t = σ'.publicTag (τ.node q side.other) := by
  have hother {pc : Pc κ} (hpc' : σ'.pc = Function.update σ.pc i pc) (hnot : ∀ op t, pc ≠ .applying q side op t) :
      σ.pc j = .applying q side op t := by
    obtain ⟨rfl, hpc''⟩ | ⟨-, hpc''⟩ := update_pc hpc' j
    · exact absurd (hpc''.symm.trans hj) (hnot op t)
    · exact hpc''.symm.trans hj
  cases hs with
  | request q' side' side'' b hpc hend hside hnode hpc' => exact .inl (hpc' ▸ hj)
  | idle hpc heq => exact .inl (heq ▸ hj)
  | reads q' side' op' hpc hnode hpc' =>
    obtain ⟨rfl, hpc''⟩ | ⟨-, hpc''⟩ := update_pc hpc' j
    · rw [hpc''] at hj
      cases hj
      rw [publicTag, hnode]
      exact .inr rfl
    · exact .inl (hpc''.symm.trans hj)
  | begins q' side' qsize pc hpc hend hb hop hnode hpc' =>
    refine .inl (hother hpc' fun op t heq => ?_)
    obtain rfl | rfl := hop
    · cases heq
    · cases heq
  | again q' side' pc hpc hb hop hnode hpc' =>
    refine .inl (hother hpc' fun op t heq => ?_)
    obtain rfl | rfl := hop
    · cases heq
    · cases heq
  | enters q' side' op' hpc hnode hpc' => exact .inl (hother hpc' fun _ _ heq => by cases heq)
  | blocks q' side' qsize t' hpc hnode hpc' => exact .inl (hother hpc' fun _ _ heq => by cases heq)
  | transmits q' side' t' hpc hnode hpc' => exact .inl (hother hpc' fun _ _ heq => by cases heq)
  | signals q' q'' side' side'' detect rest hpc hnode hpc' => exact .inl (hother hpc' fun _ _ heq => by cases heq)
  | leaves q' side' hpc hb hnode hpc' => exact .inl (hother hpc' fun _ _ heq => by cases heq)
  | waits q' side' hpc hb hf hnode hpc' => exact .inl (hother hpc' fun _ _ heq => by cases heq)
  | resolves q' side' hpc hnode hpc' => exact .inl (hother hpc' fun _ _ heq => by cases heq)

/-- A thread rests because it did so before, or because it has called `Block` or `Transmit`. -/
theorem Step.rests_cases (hs : Step τ σ σ' i) (hj : (σ'.pc j).rests = some (q, side)) :
    (σ.pc j).rests = some (q, side) ∨ j = i ∧ ∃ op t, σ.pc i = .applying q side op t := by
  have hmoves {pc : Pc κ} (hpc' : σ'.pc = Function.update σ.pc i pc) (hnew : pc.rests = some (q, side) →
      (σ.pc i).rests = some (q, side) ∨ ∃ op t, σ.pc i = .applying q side op t) :
      (σ.pc j).rests = some (q, side) ∨ j = i ∧ ∃ op t, σ.pc i = .applying q side op t := by
    obtain ⟨rfl, hpc''⟩ | ⟨-, hpc''⟩ := update_pc hpc' j
    · obtain h | h := hnew (hpc'' ▸ hj)
      · exact .inl h
      · exact .inr ⟨rfl, h⟩
    · exact .inl (hpc'' ▸ hj)
  have hstart {q' : κ} {side' : Side} {op : Op} {pc : Pc κ} (hop : pc = .entering q' side' op ∨ pc = .reading q' side' op) :
      pc.rests ≠ some (q, side) := by
    obtain rfl | rfl := hop
    · exact fun h => by cases h
    · exact fun h => by cases h
  cases hs with
  | request q' side' side'' b hpc hend hside hnode hpc' => exact .inl (hpc' ▸ hj)
  | idle hpc heq => exact .inl (heq ▸ hj)
  | begins q' side' qsize pc hpc hend hb hop hnode hpc' => exact hmoves hpc' fun h => absurd h (hstart hop)
  | enters q' side' op' hpc hnode hpc' => exact hmoves hpc' fun h => by cases h
  | reads q' side' op' hpc hnode hpc' => exact hmoves hpc' fun h => by cases h
  | blocks q' side' qsize t' hpc hnode hpc' =>
    refine hmoves hpc' fun h => ?_
    cases h
    exact .inr ⟨_, t', hpc⟩
  | transmits q' side' t' hpc hnode hpc' =>
    refine hmoves hpc' fun h => ?_
    cases h
    exact .inr ⟨_, t', hpc⟩
  | signals q' q'' side' side'' detect rest hpc hnode hpc' =>
    refine hmoves hpc' fun h => ?_
    rw [hpc]
    exact .inl h
  | leaves q' side' hpc hb hnode hpc' => exact hmoves hpc' fun h => by cases h
  | again q' side' pc hpc hb hop hnode hpc' => exact hmoves hpc' fun h => absurd h (hstart hop)
  | waits q' side' hpc hb hf hnode hpc' => exact hmoves hpc' fun h => .inl (hpc.rests.trans h)
  | resolves q' side' hpc hnode hpc' => exact hmoves hpc' fun h => by cases h

/-- What a node that has called neither of the two knows is still so, or due. -/
theorem Informed.met_quiet (hσ : Informed τ σ d) (hs : Step τ σ σ' a.node) (hj : (σ.pc j).rests = some (q, side))
    (hj' : (σ'.pc j).rests = some (q, side)) : Due τ σ' q side ∨ σ'.Met (note σ a d) j (τ.node q side.other) := by
  have hat := Pc.at_of_rests hj
  have hplaced := hσ.placed j q side hat
  have happlying (q' : κ) (side' : Side) (op : Op) (t : Tag) : σ.pc j ≠ .applying q' side' op t := by
    intro heq
    rw [heq] at hj
    cases hj
  have htags : σ'.publicTag j = σ.publicTag j ∧ σ'.privateTag j = σ.privateTag j := by
    unfold publicTag privateTag
    obtain ⟨hnode, -⟩ | ⟨q', side', qsize, t, hpc, hnode⟩ | ⟨q', side', t, hpc, -, hnode⟩ := hs.node_cases
    · rw [hnode]
      exact ⟨rfl, rfl⟩
    · refine tags_of_ne hnode ?_
      rintro rfl
      exact happlying _ _ _ _ hpc
    · refine tags_of_ne hnode ?_
      rintro rfl
      exact happlying _ _ _ _ hpc
  obtain hdue | hmet := hσ.met j q side hj
  · obtain hdue | hstarting := hs.due hσ.placed hdue
    · exact .inl hdue
    · rw [hplaced, Pc.not_starting_of_rests hj'] at hstarting
      cases hstarting
  · obtain hsame | hdue := hs.due_of_changed q side
    · refine .inr ?_
      unfold Met Own
      rw [hsame, htags.1, htags.2]
      refine ⟨hmet.1, fun heq hown => ⟨?_, .inl (hmet.2 heq hown)⟩⟩
      rintro ⟨-, q', side', qsize, t, hpc⟩
      exact happlying _ _ _ _ hpc
    · exact .inl hdue

private theorem Informed.met_transmit (hσ : Informed τ σ d) (hs : Step τ σ σ' a.node)
    (hpc : σ.pc a.node = .applying q side .transmit t) (hpc' : (σ'.pc a.node).rests = some (q, side))
    (hnode : σ'.node = Function.update σ.node a.node ((σ.node a.node).transmit t).node) :
    Due τ σ' q side ∨ σ'.Met (note σ a d) a.node (τ.node q side.other) := by
  obtain hdue | hcurrent := hσ.current _ q side _ t hpc
  · obtain hdue | hstarting := hs.due hσ.placed hdue
    · exact .inl hdue
    · rw [hσ.placed _ q side (by rw [hpc]; rfl), Pc.not_starting_of_rests hpc'] at hstarting
      cases hstarting
  · obtain hsame | hdue := hs.due_of_changed q side
    · refine .inr ?_
      rw [hcurrent] at hsame
      have hblocks : ¬ σ.Blocks a a.node := by
        rintro ⟨-, q', side', qsize, t', hpc'⟩
        rw [hpc] at hpc'
        cases hpc'
      have hdetects (h : ((σ.node a.node).transmit t).detect = true) : note σ a d a.node t :=
        ⟨hblocks, .inr ⟨rfl, q, side, hpc, h⟩⟩
      have hpublic : σ'.publicTag a.node = ((σ.node a.node).transmit t).node.publicTag := by
        rw [publicTag, hnode, Function.update_self]
      have hprivate : σ'.privateTag a.node = σ.privateTag a.node := by
        rw [privateTag, hnode, Function.update_self, Node.transmit_privateTag]
        rfl
      unfold Met Own
      rw [hsame, hpublic, hprivate]
      refine ⟨(Node.le_transmit t _).2, ?_⟩
      have houtcome := Node.transmit_outcome t (σ.node a.node)
      generalize (σ.node a.node).transmit t = r at houtcome hdetects ⊢
      cases houtcome with
      | raised hlt =>
        intro heq hown
        rw [← heq] at hown
        exact (hσ.tagged.not_own_of_raised (.inl hcurrent) hlt hown).elim
      | met heq =>
        intro heq' hown
        rw [← heq']
        exact hdetects (decide_eq_true hown)
      | past hlt => exact fun heq => absurd heq hlt.ne
    · exact .inl hdue

private theorem Informed.met_block {qsize : UInt32} (hσ : Informed τ σ d) (hs : Step τ σ σ' a.node)
    (hfits : (σ.node a.node).Fits t) (hpc : σ.pc a.node = .applying q side (.block qsize) t)
    (hpc' : (σ'.pc a.node).rests = some (q, side))
    (hnode : σ'.node = Function.update σ.node a.node ((σ.node a.node).block t qsize)) :
    Due τ σ' q side ∨ σ'.Met (note σ a d) a.node (τ.node q side.other) := by
  obtain hdue | hcurrent := hσ.current _ q side _ t hpc
  · obtain hdue | hstarting := hs.due hσ.placed hdue
    · exact .inl hdue
    · rw [hσ.placed _ q side (by rw [hpc]; rfl), Pc.not_starting_of_rests hpc'] at hstarting
      cases hstarting
  · obtain hsame | hdue := hs.due_of_changed q side
    · have hlt : σ'.publicTag (τ.node q side.other) < σ'.publicTag a.node := by
        rw [hsame, hcurrent, publicTag, hnode, Function.update_self, Tag.lt_iff]
        exact .inl (Node.label_lt_block _ hfits).2
      exact .inr ⟨hlt.le, fun heq => absurd heq hlt.ne⟩
    · exact .inl hdue

private theorem Informed.met_next (hσ : Informed τ σ d) (hs : Step τ σ σ' a.node)
    (hfits : (σ.pc a.node).Fits (σ.node a.node))
    (hj : (σ'.pc j).rests = some (q, side)) : Due τ σ' q side ∨ σ'.Met (note σ a d) j (τ.node q side.other) := by
  obtain hold | ⟨rfl, op, t, hpc⟩ := hs.rests_cases hj
  · exact hσ.met_quiet hs hold hj
  · obtain ⟨-, hnot⟩ | ⟨q', side', qsize, t', hpc', hnode⟩ | ⟨q', side', t', hpc', -, hnode⟩ := hs.node_cases
    · exact absurd hpc (hnot q side op t)
    · rw [hpc] at hpc'
      cases hpc'
      rw [hpc] at hfits
      exact hσ.met_block hs hfits hpc hj hnode
    · rw [hpc] at hpc'
      cases hpc'
      exact hσ.met_transmit hs hpc hj hnode

/-- The private tag of a node changes by `Block` only. -/
theorem privateTag_of_not_blocks (hs : Step τ σ σ' a.node) (hj : ¬ σ.Blocks a j) :
    σ'.privateTag j = σ.privateTag j := by
  unfold privateTag
  obtain ⟨hnode, -⟩ | ⟨q, side, qsize, t, hpc, hnode⟩ | ⟨q, side, t, hpc, -, hnode⟩ := hs.node_cases
  · rw [hnode]
  · have hne : j ≠ a.node := by
      rintro rfl
      exact hj ⟨rfl, q, side, qsize, t, hpc⟩
    rw [hnode, Function.update_of_ne hne]
  · rw [hnode]
    by_cases heq : j = a.node
    · subst heq
      rw [Function.update_self, Node.transmit_privateTag]
    · rw [Function.update_of_ne heq]

/-- After a detection the thread still signals, or it leaves, or it is the one of a writer. -/
theorem Step.detected_cases (hs : Step τ σ σ' i) (hi : (σ'.pc i).post.isSome = true)
    (h : (∃ rest, σ.pc i = .signaling q side true rest) ∨
      ∃ t, σ.pc i = .applying q side .transmit t ∧ ((σ.node i).transmit t).detect = true) :
    side = .writer ∨ ∃ rest, σ'.pc i = .signaling q side true rest := by
  have hother {pc : Pc κ} (hpc : σ.pc i = pc) (hsignaling : ∀ rest, pc ≠ .signaling q side true rest)
      (happlying : ∀ t, pc ≠ .applying q side .transmit t) :
      side = .writer ∨ ∃ rest, σ'.pc i = .signaling q side true rest := by
    obtain ⟨rest, h⟩ | ⟨t, h, -⟩ := h
    · exact absurd (hpc.symm.trans h) (hsignaling rest)
    · exact absurd (hpc.symm.trans h) (happlying t)
  have hpassing {q' : κ} {side' : Side} (hpc : Passing (σ.pc i) q' side') :
      side = .writer ∨ ∃ rest, σ'.pc i = .signaling q side true rest := by
    obtain hpc | ⟨detect, hpc, hwriter⟩ := hpc
    · exact hother hpc (fun _ heq => by cases heq) fun _ heq => by cases heq
    · obtain ⟨rest, h⟩ | ⟨t, h, -⟩ := h
      · rw [hpc] at h
        cases h
        exact .inl (hwriter rfl)
      · rw [hpc] at h
        cases h
  cases hs with
  | request q' side' side'' b hpc => exact hother hpc (fun _ heq => by cases heq) fun _ heq => by cases heq
  | idle hpc heq => exact hother hpc (fun _ heq => by cases heq) fun _ heq => by cases heq
  | begins q' side' qsize pc hpc => exact hother hpc (fun _ heq => by cases heq) fun _ heq => by cases heq
  | enters q' side' op hpc => exact hother hpc (fun _ heq => by cases heq) fun _ heq => by cases heq
  | reads q' side' op hpc => exact hother hpc (fun _ heq => by cases heq) fun _ heq => by cases heq
  | blocks q' side' qsize t hpc => exact hother hpc (fun _ heq => by cases heq) fun _ heq => by cases heq
  | transmits q' side' t hpc hnode hpc' =>
    obtain ⟨rest, h⟩ | ⟨t', h, hdetect⟩ := h
    · rw [hpc] at h
      cases h
    · rw [hpc] at h
      cases h
      rw [hpc', Function.update_self, hdetect]
      exact .inr ⟨_, rfl⟩
  | signals q' q'' side' side'' detect rest hpc hnode hpc' =>
    obtain ⟨rest', h⟩ | ⟨t', h, -⟩ := h
    · rw [hpc] at h
      cases h
      rw [hpc', Function.update_self]
      exact .inr ⟨rest, rfl⟩
    · rw [hpc] at h
      cases h
  | leaves q' side' hpc => exact hpassing hpc
  | again q' side' pc hpc => exact hpassing hpc
  | waits q' side' hpc => exact hpassing hpc
  | resolves q' side' hpc hnode hpc' =>
    rw [hpc', Function.update_self] at hi
    cases hi

private theorem Informed.thrown_next (hσ : Informed τ σ d) (hs : Step τ σ σ' a.node) (hd : note σ a d j t)
    (hj : (σ'.pc j).post = some (q, side)) : side = .writer ∨ ∃ rest, σ'.pc j = .signaling q side true rest := by
  obtain ⟨hblocks, hd⟩ := hd
  have hold : (σ.pc j).post = some (q, side) := by
    obtain hold | ⟨rfl, qsize, t', hpc, -⟩ := hs.post_cases hj
    · exact hold
    · exact absurd ⟨rfl, q, side, qsize, t', hpc⟩ hblocks
  by_cases hne : j = a.node
  · subst hne
    have hi : (σ'.pc a.node).post.isSome = true := by
      rw [hj]
      rfl
    obtain hd | ⟨-, q', side', hpc, hdetect⟩ := hd
    · obtain hwriter | ⟨rest, hpc⟩ := hσ.thrown _ q side t hd hold
      · exact .inl hwriter
      · exact hs.detected_cases hi (.inl ⟨rest, hpc⟩)
    · rw [hpc] at hold
      cases hold
      exact hs.detected_cases hi (.inr ⟨t, hpc, hdetect⟩)
  · rw [hs.pc_of_ne hne]
    obtain hd | ⟨rfl, -⟩ := hd
    · exact hσ.thrown j q side t hd hold
    · exact absurd rfl hne

private theorem Informed.next (hσ : Informed τ σ d) (hs : Step τ σ σ' a.node) (hfits : (σ.pc a.node).Fits (σ.node a.node)) :
    Informed τ σ' (note σ a d) where
  tagged := hσ.tagged.step hfits hs
  placed j q side hj := by
    obtain hold | ⟨rfl, hend⟩ := hs.at_cases hj
    · exact hσ.placed j q side hold
    · exact hend
  earned := hs.earned hσ.tagged hfits hσ.earned
  current j q side op t hj := by
    obtain hold | rfl := hs.applying_cases hj
    · obtain hdue | hcurrent := hσ.current j q side op t hold
      · obtain hdue | hstarting := hs.due hσ.placed hdue
        · exact .inl hdue
        · rw [hσ.placed j q side (by rw [hold]; rfl), hj] at hstarting
          cases hstarting
      · obtain hsame | hdue := hs.due_of_changed q side
        · exact .inr (hsame.trans hcurrent)
        · exact .inl hdue
    · exact .inr rfl
  met j q side hj := hσ.met_next hs hfits hj
  priority j t hd := by
    obtain ⟨hblocks, hd⟩ := hd
    rw [privateTag_of_not_blocks hs hblocks]
    obtain hd | ⟨-, q, side, -, hdetect⟩ := hd
    · exact hσ.priority j t hd
    · obtain ⟨rfl, hown⟩ := Node.detect_iff.1 hdetect
      exact hown
  thrown j q side t hd hj := hσ.thrown_next hs hd hj

end State

/-! ### Cycles of sleeping nodes -/

section Cycles

namespace State

/-- The node sleeps on a blocked queue, nothing has been signalled to it, and `n` is at the other end. -/
def Sleeps (τ : Topology ι κ) (σ : State ι κ) (i n : ι) : Prop :=
  ∃ q side, σ.pc i = .waiting q side ∧ σ.blocked q side = true ∧ σ.flag q side.other = false ∧ τ.node q side.other = n

private theorem Sleeps.eq {k l : ι} (h : σ.Sleeps τ j k) (h' : σ.Sleeps τ j l) : k = l := by
  obtain ⟨q, side, hpc, -, -, rfl⟩ := h
  obtain ⟨q', side', hpc', -, -, rfl⟩ := h'
  rw [hpc] at hpc'
  cases hpc'
  rfl

private theorem Informed.met_of_sleeps (hσ : Informed τ σ d) {k l : ι} (hj : σ.Sleeps τ j k) (hk : σ.Sleeps τ k l) :
    σ.Met d j k := by
  obtain ⟨q, side, hpc, -, hflag, rfl⟩ := hj
  obtain ⟨q', side', hpc', -⟩ := hk
  refine (hσ.met j q side (by rw [hpc]; rfl)).resolve_left ?_
  rintro (hdue | hdue)
  · rw [hflag] at hdue
    cases hdue
  · rw [hpc'] at hdue
    cases hdue

/-- All nodes of a cycle have one tag. -/
theorem Informed.publicTag_eq (hσ : Informed τ σ d) (hcycle : Relation.TransGen (σ.Sleeps τ) i i)
    (hj : Relation.TransGen (σ.Sleeps τ) i j) : σ.publicTag j = σ.publicTag i := by
  refine eq_of_cycle σ.publicTag (fun _ _ _ h h' => h.eq h') hcycle (fun j k hij hjk => ?_) hj
  obtain ⟨l, hkl⟩ := exists_next_of_cycle (fun _ _ _ h h' => h.eq h') hcycle (hij.tail hjk)
  exact (hσ.met_of_sleeps hjk hkl).1

/-- One of the nodes has put its own priority into the tag. -/
theorem Informed.exists_own (hσ : Informed τ σ d) (hcycle : Relation.TransGen (σ.Sleeps τ) i i)
    (hj : Relation.TransGen (σ.Sleeps τ) i j) : ∃ m, Relation.TransGen (σ.Sleeps τ) i m ∧ σ.Own m := by
  have hnext {j : ι} {q : κ} {side : Side} (hj : Relation.TransGen (σ.Sleeps τ) i j)
      (hpost : (σ.pc j).post = some (q, side)) : Relation.TransGen (σ.Sleeps τ) i (τ.node q side.other) := by
    obtain ⟨k, hjk⟩ := exists_next_of_cycle (fun _ _ _ h h' => h.eq h') hcycle hj
    obtain ⟨q', side', hpc, hblocked, hflag, hk⟩ := hjk
    rw [hpc] at hpost
    cases hpost
    exact hj.tail ⟨q, side, hpc, hblocked, hflag, rfl⟩
  have hearned := hσ.earned j
  induction hearned with
  | @own j h =>
    refine ⟨j, hj, h.resolve_left ?_⟩
    obtain ⟨k, q, side, hpc, -⟩ := exists_next_of_cycle (fun _ _ _ h h' => h.eq h') hcycle hj
    rw [hpc]
    exact fun heq => by cases heq
  | above hpost hlt =>
    rw [hσ.publicTag_eq hcycle hj, hσ.publicTag_eq hcycle (hnext hj hpost)] at hlt
    exact absurd hlt (lt_irrefl _)
  | same hpost heq h ih => exact ih (hnext hj hpost)

end State

variable [DecidableEq ι] [DecidableEq κ]

private theorem informed_of_reachableBy
    (h : ((machine τ).recorded State.note fun _ _ => False).ReachableBy (fun s a => CountsFit s.1 a) (σ, d)) :
    State.Informed τ σ d := by
  refine h.invariant (I := fun s => State.Informed τ s.1 s.2) (fun s hs => ?_) fun s a s' hσ hok hn => ?_
  · obtain ⟨⟨hnode, hpc, -⟩, hd⟩ := hs
    rw [hd]
    exact .init hnode hpc
  · obtain ⟨hnext, hd⟩ := Machine.recorded_next hn
    rw [hd]
    exact hσ.next (step_of_next hnext) hok

/-- When all nodes of a deadlock have gone to sleep, they have one tag.  It has the priority of exactly one of them, no other
has a smaller one, and exactly for this node `Transmit` has returned true for the tag since the node has blocked.  The node
is a writer: a reader would have thrown the exception, and so a deadlock of readers never goes to sleep. -/
theorem deadlock_detected (τ : Topology ι κ) {σ : State ι κ} {d : ι → Tag → Prop}
    (h : ((machine τ).recorded State.note fun _ _ => False).ReachableBy (fun s a => CountsFit s.1 a) (σ, d)) {i : ι}
    (hcycle : Relation.TransGen (σ.Sleeps τ) i i) :
    ∃ m q t, Relation.TransGen (σ.Sleeps τ) i m ∧ σ.pc m = .waiting q .writer ∧ t.priority = (σ.privateTag m).priority ∧
      ∀ j, Relation.TransGen (σ.Sleeps τ) i j →
        σ.publicTag j = t ∧ (σ.privateTag m).priority ≤ (σ.privateTag j).priority ∧
          ((σ.privateTag j).priority = t.priority ↔ j = m) ∧ (d j t ↔ j = m) := by
  have hσ := informed_of_reachableBy h
  obtain ⟨m, hm, hown⟩ := hσ.exists_own hcycle hcycle
  have hpublic := hσ.publicTag_eq hcycle hm
  have hdetected : d m (σ.publicTag i) := by
    obtain ⟨k, hmk⟩ := exists_next_of_cycle (fun _ _ _ h h' => h.eq h') hcycle hm
    obtain ⟨l, hkl⟩ := exists_next_of_cycle (fun _ _ _ h h' => h.eq h') hcycle (hm.tail hmk)
    have hk := hσ.publicTag_eq hcycle (hm.tail hmk)
    rw [← hpublic]
    exact (hσ.met_of_sleeps hmk hkl).2 (hk.trans hpublic.symm) hown
  have hpriority : (σ.publicTag i).priority = (σ.privateTag m).priority := hσ.priority m _ hdetected
  obtain ⟨q, hpc⟩ : ∃ q, σ.pc m = .waiting q .writer := by
    obtain ⟨k, q, side, hpc, -⟩ := exists_next_of_cycle (fun _ _ _ h h' => h.eq h') hcycle hm
    obtain rfl | ⟨rest, hpc'⟩ := hσ.thrown m q side _ hdetected (by rw [hpc]; rfl)
    · exact ⟨q, hpc⟩
    · rw [hpc] at hpc'
      cases hpc'
  have hunique {j : ι} (hj : (σ.privateTag j).priority = (σ.publicTag i).priority) : j = m := by
    have heq := hj.trans hpriority
    refine τ.key_injective ?_
    rw [← (hσ.tagged.sound j).priorityKey, ← (hσ.tagged.sound m).priorityKey]
    exact congrArg UInt128.low heq
  refine ⟨m, q, σ.publicTag i, hm, hpc, hpriority, fun j hj => ⟨hσ.publicTag_eq hcycle hj, ?_, ⟨hunique, ?_⟩, ?_, ?_⟩⟩
  · rw [← hpriority, ← hσ.publicTag_eq hcycle hj]
    exact (hσ.tagged.sound j).priority
  · rintro rfl
    exact hpriority.symm
  · exact fun hd => hunique (hσ.priority j _ hd).symm
  · rintro rfl
    exact hdetected

/-- Both nodes write to a full queue, and `Detect` does not make room. -/
def bothWrite : List (Act Bool Bool) :=
  [.request true true .writer true, .writeBlock true true 4] ++ List.replicate 5 (.go true false) ++
    [.request false false .writer true, .writeBlock false false 3] ++ List.replicate 5 (.go false false) ++
    List.replicate 6 (.go true false) ++ List.replicate 4 (.go false false)

/-- The node with the shorter queue is the one that has detected the deadlock. -/
theorem deadlock_detected_pair : ∃ (σ : State Bool Bool) (d : Bool → Tag → Prop),
    ((machine pair).recorded State.note fun _ _ => False).ReachableBy (fun s a => CountsFit s.1 a) (σ, d) ∧
    Relation.TransGen (σ.Sleeps pair) false false ∧ ∃ t, d false t ∧ ¬ d true t := by
  obtain ⟨σ, hσ⟩ : ∃ σ, (machine pair).runBy CountsFit idlePair bothWrite = some σ := ⟨_, rfl⟩
  have hrun : (machine pair).ReachableBy CountsFit σ := .of_runBy (.init ⟨fun _ => rfl, fun _ => rfl, fun _ => rfl⟩) hσ
  obtain ⟨hfirst, hsecond, hpriority⟩ : σ.Sleeps pair true false ∧ σ.Sleeps pair false true ∧
      (σ.privateTag false).priority < (σ.privateTag true).priority := by
    cases hσ
    exact ⟨⟨true, .writer, rfl, rfl, rfl, rfl⟩, ⟨false, .writer, rfl, rfl, rfl, rfl⟩, by decide⟩
  obtain ⟨d, hd⟩ : ∃ d, ((machine pair).recorded State.note fun _ _ => False).ReachableBy (fun s a => CountsFit s.1 a)
      (σ, d) := hrun.exists_recorded
  have hcycle : Relation.TransGen (σ.Sleeps pair) false false := .head hsecond (.single hfirst)
  obtain ⟨m, q, t, hm, hpc, ht, hall⟩ := deadlock_detected pair hd hcycle
  obtain rfl : m = false := by
    cases m with
    | false => rfl
    | true => exact absurd hpriority (hall false hcycle).2.1.not_gt
  refine ⟨σ, d, hd, hcycle, t, (hall false hcycle).2.2.2.2 rfl, fun htrue => ?_⟩
  cases (hall true (.single hsecond)).2.2.2.1 htrue

end Cycles

end ProcessNetwork.D4R
