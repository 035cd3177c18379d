import ProcessNetwork.D4RTags

/-!
# Detected deadlocks

A tag that comes back to the node whose priority it has has come through nodes that all wait for the next one, as long as
no node takes a tag over after its queue has been unblocked.  The code does not look at the queue again before `Transmit`,
and so it can report a deadlock that is none (`phantom_deadlock`).
-/

namespace ProcessNetwork.D4R

open Registry (Side)

variable {ι κ : Type} {τ : Topology ι κ} {σ σ' : State ι κ} {i j m n o : ι} {q : κ} {side : Side} {t : Tag}

theorem Pc.at_of_post {pc : Pc κ} {at' : κ × Side} (h : pc.post = some at') : pc.at = some at' := by
  cases pc with
  | running => cases h
  | entering q side op | reading q side op | applying q side op t =>
    cases op with
    | block qsize => cases h
    | transmit => exact h
  | signaling q side detect rest => exact h
  | waiting q side => exact h

namespace State

/-- The thread of `i` is in `ReadBlock` or `WriteBlock` on a queue that is blocked for it, with `n` at the other end. -/
def WaitsOn (τ : Topology ι κ) (σ : State ι κ) (i n : ι) : Prop :=
  ∃ q side, (σ.pc i).at = some (q, side) ∧ σ.blocked q side = true ∧ τ.node q side.other = n

/-- The public tag of the node has its own priority. -/
def Own (σ : State ι κ) (i : ι) : Prop := (σ.publicTag i).priority = (σ.privateTag i).priority

/-- The tag has come to `j` from the node `o`, through nodes that have all waited for the next one since then. -/
inductive Carried (τ : Topology ι κ) (σ : State ι κ) (t : Tag) (o : ι) : ι → Prop
  | own : Carried τ σ t o o
  | step {j : ι} {q : κ} {side : Side} (hpost : (σ.pc j).post = some (q, side)) (hblocked : σ.blocked q side = true)
    (hpriority : t.priority < (σ.privateTag j).priority) (hlabel : (σ.privateTag j).label ≤ t.label)
    (hle : t ≤ σ.publicTag j) (h : Carried τ σ t o (τ.node q side.other)) : Carried τ σ t o j

/-- The tag is the one that the node has now, and has its priority. -/
structure Live (τ : Topology ι κ) (σ : State ι κ) (t : Tag) (o : ι) : Prop where
  key : t.queueKey = τ.key o
  post : (σ.pc o).post.isSome = true
  label : (σ.publicTag o).label = t.label
  own : σ.Own o

structure Chained (τ : Topology ι κ) (σ : State ι κ) : Prop where
  tagged : Tagged τ σ
  placed : ∀ i q side, (σ.pc i).at = some (q, side) → τ.node q side = i
  /-- A label that is not the one of the last `Block` has come from the other end, which has it or a larger one. -/
  followed : ∀ i q side, (σ.pc i).post = some (q, side) → (σ.publicTag i).label ≠ (σ.privateTag i).label →
    (σ.publicTag i).label ≤ (σ.publicTag (τ.node q side.other)).label
  carried : ∀ j t o, σ.Shows τ j t → Live τ σ t o → Carried τ σ t o j
  returned : ∀ i q side rest, σ.pc i = .signaling q side true rest → σ.Own i ∧
    Carried τ σ (σ.publicTag i) i (τ.node q side.other)

private theorem Carried.waitsOn (h : Carried τ σ t o j) : Relation.ReflTransGen (σ.WaitsOn τ) j o := by
  induction h with
  | own => exact .refl
  | step hpost hblocked hpriority hlabel hle h ih => exact .head ⟨_, _, Pc.at_of_post hpost, hblocked, rfl⟩ ih

/-- The nodes on the way stay where they are when every node that waits for one inside does. -/
theorem Carried.mono (h : Carried τ σ t o j) (ho : (σ.pc o).post.isSome = true)
    (hkeep : ∀ j q side, Carried τ σ t o j → (σ.pc j).post = some (q, side) → σ.blocked q side = true →
      (σ.pc (τ.node q side.other)).post.isSome = true →
      (σ'.pc j).post = some (q, side) ∧ σ'.blocked q side = true ∧ σ'.privateTag j = σ.privateTag j)
    (hmono : ∀ j, σ.publicTag j ≤ σ'.publicTag j) : Carried τ σ' t o j := by
  induction h with
  | own => exact .own
  | @step j q side hpost hblocked hpriority hlabel hle h ih =>
    have hnext : (σ.pc (τ.node q side.other)).post.isSome = true := by
      cases h with
      | own => exact ho
      | step hpost' => exact Option.isSome_iff_exists.2 ⟨_, hpost'⟩
    obtain ⟨hpost', hblocked', hprivate⟩ := hkeep _ _ _ (.step hpost hblocked hpriority hlabel hle h) hpost hblocked hnext
    exact .step hpost' hblocked' (hprivate ▸ hpriority) (hprivate ▸ hlabel) (hle.trans (hmono _)) ih

/-- Two tags on their way meet at every node that both have come through. -/
theorem Carried.meets {t' : Tag} {i : ι} (h : Carried τ σ t o m) (h' : Carried τ σ t' i m) (hne : o ≠ i)
    (hpost : (σ.pc i).post = some (q, side)) (hback : Carried τ σ t' i (τ.node q side.other)) :
    ∃ q' side', (σ.pc o).post = some (q', side') ∧ t'.priority < (σ.privateTag o).priority ∧
      (σ.privateTag o).label ≤ t'.label ∧ t' ≤ σ.publicTag o ∧ Carried τ σ t' i (τ.node q' side'.other) := by
  induction h with
  | own =>
    cases h' with
    | own => exact absurd rfl hne
    | step hpost' hblocked hpriority hlabel hle h' => exact ⟨_, _, hpost', hpriority, hlabel, hle, h'⟩
  | step hpost' hblocked hpriority hlabel hle h ih =>
    cases h' with
    | own =>
      rw [hpost] at hpost'
      cases hpost'
      exact ih hback
    | step hpost'' hblocked'' hpriority'' hlabel'' hle'' h'' =>
      rw [hpost''] at hpost'
      cases hpost'
      exact ih h''

/-- No node on the way has a label above the one of the tag where it ends. -/
theorem Chained.label_le (hσ : Chained τ σ) (h : Carried τ σ t i m) (ht : (σ.publicTag i).label = t.label) :
    (σ.publicTag m).label ≤ t.label := by
  induction h with
  | own => exact ht.le
  | step hpost hblocked hpriority hlabel hle h ih =>
    by_contra hnot
    have hlt := not_le.1 hnot
    have hne := (hlabel.trans_lt hlt).ne'
    exact hnot ((hσ.followed _ _ _ hpost hne).trans ih)

/-- A tag that has come back stops every other one. -/
theorem Chained.not_carried (hσ : Chained τ σ) (hpost : (σ.pc i).post = some (q, side))
    (hback : Carried τ σ (σ.publicTag i) i (τ.node q side.other)) (hlive : Live τ σ t o) (hne : o ≠ i) :
    ¬ Carried τ σ t o i := by
  intro h
  cases h with
  | own => exact hne rfl
  | step hpost' hblocked hpriority hlabel hle h =>
    rw [hpost] at hpost'
    cases hpost'
    obtain ⟨q', side', hpost'', hpriority', hlabel', hle', hrest⟩ := h.meets hback hne hpost hback
    -- `o` has taken the tag over and has its own priority again, so with a larger label
    have hlt : (σ.publicTag i).label < (σ.publicTag o).label := by
      rw [Tag.le_iff] at hle'
      refine hle'.resolve_right fun ⟨_, hp⟩ => ?_
      rw [hlive.own] at hp
      exact absurd hpriority' hp.not_gt
    have hfollowed := hσ.followed o q' side' hpost'' (hlabel'.trans_lt hlt).ne'
    exact absurd (hlt.trans_le hfollowed) (hσ.label_le hrest rfl).not_gt

/-! ### Steps -/

theorem Passing.post {pc : Pc κ} (h : Passing pc q side) : pc.post = some (q, side) := by
  obtain rfl | ⟨detect, rfl, -⟩ := h
  · rfl
  · rfl

variable [DecidableEq ι] [DecidableEq κ]

/-- Where a node that waits for one inside stays. -/
theorem Chained.stays (hσ : Chained τ σ) (hs : Step τ σ σ' i) (hj : (σ.pc j).post = some (q, side))
    (hb : σ.blocked q side = true) (hnext : (σ.pc (τ.node q side.other)).post.isSome = true) :
    (σ'.pc j).post = some (q, side) ∧ σ'.blocked q side = true ∨
      j = i ∧ (σ'.pc i).post = none ∧ ∃ rest, σ.pc i = .signaling q side true rest := by
  have hplaced := hσ.placed j q side (Pc.at_of_post hj)
  have hmoves {pc : Pc κ} {q' : κ} {side' : Side} (hpc' : σ'.pc = Function.update σ.pc i pc)
      (hblocked : σ'.blocked = σ.blocked) (hold : (σ.pc i).post = some (q', side'))
      (hnew : pc.post = some (q', side')) : (σ'.pc j).post = some (q, side) ∧ σ'.blocked q side = true := by
    rw [hblocked]
    obtain ⟨rfl, hpc''⟩ | ⟨-, hpc''⟩ := update_pc hpc' j
    · rw [hj] at hold
      cases hold
      exact ⟨hpc''.symm ▸ hnew, hb⟩
    · exact ⟨hpc''.symm ▸ hj, hb⟩
  have hoff {pc : Pc κ} (hpc' : σ'.pc = Function.update σ.pc i pc) (hblocked : σ'.blocked = σ.blocked)
      (hold : (σ.pc i).post = none) : (σ'.pc j).post = some (q, side) ∧ σ'.blocked q side = true := by
    rw [hblocked]
    obtain ⟨rfl, -⟩ | ⟨-, hpc''⟩ := update_pc hpc' j
    · rw [hj] at hold
      cases hold
    · exact ⟨hpc''.symm ▸ hj, hb⟩
  cases hs with
  | request q' side' side'' b hpc hend hside hnode hpc' hblocked hflag =>
    refine .inl ⟨hpc' ▸ hj, ?_⟩
    rw [hblocked, if_neg, hb]
    -- the ends of the queue that changes are the node that runs, and one that waits for it
    rintro ⟨rfl, rfl⟩
    obtain rfl | ⟨rfl, -⟩ := hside
    · rw [← hplaced, hend, hpc] at hj
      cases hj
    · rw [Side.other_other, hend, hpc] at hnext
      cases hnext
  | idle hpc heq => exact .inl (heq ▸ ⟨hj, hb⟩)
  | begins q' side' qsize pc hpc hend hb' hop hnode hpc' hblocked hflag =>
    exact .inl (hoff hpc' hblocked (by rw [hpc]; rfl))
  | enters q' side' op hpc hnode hpc' hblocked hflag =>
    cases op with
    | block qsize => exact .inl (hoff hpc' hblocked (by rw [hpc]; rfl))
    | transmit => exact .inl (hmoves hpc' hblocked (by rw [hpc]; rfl) rfl)
  | reads q' side' op hpc hnode hpc' hblocked hflag =>
    cases op with
    | block qsize => exact .inl (hoff hpc' hblocked (by rw [hpc]; rfl))
    | transmit => exact .inl (hmoves hpc' hblocked (by rw [hpc]; rfl) rfl)
  | blocks q' side' qsize t hpc hnode hpc' hblocked hflag => exact .inl (hoff hpc' hblocked (by rw [hpc]; rfl))
  | transmits q' side' t hpc hnode hpc' hblocked hflag => exact .inl (hmoves hpc' hblocked (by rw [hpc]; rfl) rfl)
  | signals q' q'' side' side'' detect rest hpc hnode hpc' hblocked hflag =>
    exact .inl (hmoves hpc' hblocked (by rw [hpc]; rfl) rfl)
  | leaves q' side' hpc hb' hnode hpc' hblocked hflag =>
    refine .inl ?_
    obtain ⟨rfl, -⟩ | ⟨-, hpc''⟩ := update_pc hpc' j
    · rw [hpc.post] at hj
      cases hj
      rw [hb] at hb'
      cases hb'
    · rw [hblocked, hpc'']
      exact ⟨hj, hb⟩
  | again q' side' pc hpc hb' hop hnode hpc' hblocked hflag =>
    refine .inl (hmoves hpc' hblocked hpc.post ?_)
    obtain rfl | rfl := hop
    · rfl
    · rfl
  | waits q' side' hpc hb' hf hnode hpc' hblocked hflag => exact .inl (hmoves hpc' hblocked hpc.post rfl)
  | resolves q' side' hpc hnode hpc' hblocked hsame hflag =>
    obtain ⟨rfl, -⟩ | ⟨hne, hpc''⟩ := update_pc hpc' j
    · rw [hpc] at hj
      cases hj
      exact .inr ⟨rfl, by rw [hpc', Function.update_self]; rfl, _, hpc⟩
    · refine .inl ⟨hpc''.symm ▸ hj, ?_⟩
      rw [hsame, hb]
      -- the queue of another node is not the one that is resolved
      intro heq
      cases heq
      have hplaced' := hσ.placed i q side (by rw [hpc]; rfl)
      exact hne (hplaced.symm.trans hplaced')

/-- What is on its way stays so, as long as it can come back. -/
theorem Chained.carried_step (hσ : Chained τ σ) (hfits : (σ.pc i).Fits (σ.node i)) (hs : Step τ σ σ' i)
    (hlive : Live τ σ t o) (ho : (σ'.pc o).post.isSome = true) (h : Carried τ σ t o j) : Carried τ σ' t o j := by
  refine h.mono hlive.post (fun k q side hk hpost hb hnext => ?_) (hs.publicTag_mono hfits)
  have hprivate := hs.privateTag_eq (Option.isSome_iff_exists.2 ⟨_, hpost⟩)
  obtain ⟨hpost', hb'⟩ | ⟨rfl, hgone, rest, hpc⟩ := hσ.stays hs hpost hb hnext
  · exact ⟨hpost', hb', hprivate⟩
  · have hok : o ≠ k := by
      rintro rfl
      rw [hgone] at ho
      cases ho
    exact absurd hk (hσ.not_carried hpost (hσ.returned k q side rest hpc).2 hlive hok)

/-- A thread that is past its `Block` was so before, or has just called it. -/
theorem Step.post_cases (hs : Step τ σ σ' i) (hj : (σ'.pc j).post = some (q, side)) :
    (σ.pc j).post = some (q, side) ∨ j = i ∧ ∃ qsize t, σ.pc i = .applying q side (.block qsize) t ∧
      σ'.node = Function.update σ.node i ((σ.node i).block t qsize) := by
  have hmoves {pc : Pc κ} (hpc' : σ'.pc = Function.update σ.pc i pc)
      (hold : pc.post = some (q, side) → (σ.pc i).post = some (q, side)) : (σ.pc j).post = some (q, side) := by
    obtain ⟨rfl, hpc''⟩ | ⟨-, hpc''⟩ := update_pc hpc' j
    · exact hold (hpc'' ▸ hj)
    · exact hpc'' ▸ hj
  cases hs with
  | request q' side' side'' b hpc hend hside hnode hpc' hblocked hflag => exact .inl (hpc' ▸ hj)
  | idle hpc heq => exact .inl (heq ▸ hj)
  | begins q' side' qsize pc hpc hend hb' hop hnode hpc' hblocked hflag =>
    refine .inl (hmoves hpc' fun hnew => ?_)
    obtain rfl | rfl := hop
    · cases hnew
    · cases hnew
  | enters q' side' op hpc hnode hpc' hblocked hflag =>
    refine .inl (hmoves hpc' fun hnew => ?_)
    rw [hpc]
    cases op with
    | block qsize => cases hnew
    | transmit => exact hnew
  | reads q' side' op hpc hnode hpc' hblocked hflag =>
    refine .inl (hmoves hpc' fun hnew => ?_)
    rw [hpc]
    cases op with
    | block qsize => cases hnew
    | transmit => exact hnew
  | blocks q' side' qsize t hpc hnode hpc' hblocked hflag =>
    obtain ⟨rfl, hpc''⟩ | ⟨-, hpc''⟩ := update_pc hpc' j
    · rw [hpc''] at hj
      cases hj
      exact .inr ⟨rfl, qsize, t, hpc, hnode⟩
    · exact .inl (hpc'' ▸ hj)
  | transmits q' side' t hpc hnode hpc' hblocked hflag =>
    exact .inl (hmoves hpc' fun hnew => by rw [hpc]; exact hnew)
  | signals q' q'' side' side'' detect rest hpc hnode hpc' hblocked hflag =>
    exact .inl (hmoves hpc' fun hnew => by rw [hpc]; exact hnew)
  | leaves q' side' hpc hb' hnode hpc' hblocked hflag => exact .inl (hmoves hpc' fun hnew => by cases hnew)
  | again q' side' pc hpc hb' hop hnode hpc' hblocked hflag =>
    refine .inl (hmoves hpc' fun hnew => ?_)
    rw [hpc.post]
    obtain rfl | rfl := hop
    · exact hnew
    · exact hnew
  | waits q' side' hpc hb' hf hnode hpc' hblocked hflag =>
    exact .inl (hmoves hpc' fun hnew => by rw [hpc.post]; exact hnew)
  | resolves q' side' hpc hnode hpc' hblocked hsame hflag => exact .inl (hmoves hpc' fun hnew => by cases hnew)

theorem Step.at_cases (hs : Step τ σ σ' i) (hj : (σ'.pc j).at = some (q, side)) :
    (σ.pc j).at = some (q, side) ∨ j = i ∧ τ.node q side = i := by
  have hmoves {pc : Pc κ} (hpc' : σ'.pc = Function.update σ.pc i pc)
      (hold : pc.at = some (q, side) → (σ.pc i).at = some (q, side)) : (σ.pc j).at = some (q, side) := by
    obtain ⟨rfl, hpc''⟩ | ⟨-, hpc''⟩ := update_pc hpc' j
    · exact hold (hpc'' ▸ hj)
    · exact hpc'' ▸ hj
  cases hs with
  | request q' side' side'' b hpc hend hside hnode hpc' => exact .inl (hpc' ▸ hj)
  | idle hpc heq => exact .inl (heq ▸ hj)
  | begins q' side' qsize pc hpc hend hb' hop hnode hpc' =>
    obtain ⟨rfl, hpc''⟩ | ⟨-, hpc''⟩ := update_pc hpc' j
    · rw [hpc''] at hj
      obtain rfl | rfl := hop
      · cases hj
        exact .inr ⟨rfl, hend⟩
      · cases hj
        exact .inr ⟨rfl, hend⟩
    · exact .inl (hpc'' ▸ hj)
  | enters q' side' op hpc hnode hpc' => exact .inl (hmoves hpc' fun hnew => by rw [hpc]; exact hnew)
  | reads q' side' op hpc hnode hpc' => exact .inl (hmoves hpc' fun hnew => by rw [hpc]; exact hnew)
  | blocks q' side' qsize t hpc hnode hpc' => exact .inl (hmoves hpc' fun hnew => by rw [hpc]; exact hnew)
  | transmits q' side' t hpc hnode hpc' => exact .inl (hmoves hpc' fun hnew => by rw [hpc]; exact hnew)
  | signals q' q'' side' side'' detect rest hpc hnode hpc' =>
    exact .inl (hmoves hpc' fun hnew => by rw [hpc]; exact hnew)
  | leaves q' side' hpc hb' hnode hpc' => exact .inl (hmoves hpc' fun hnew => by cases hnew)
  | again q' side' pc hpc hb' hop hnode hpc' =>
    refine .inl (hmoves hpc' fun hnew => ?_)
    rw [Pc.at_of_post hpc.post]
    obtain rfl | rfl := hop
    · exact hnew
    · exact hnew
  | waits q' side' hpc hb' hf hnode hpc' =>
    exact .inl (hmoves hpc' fun hnew => by rw [Pc.at_of_post hpc.post]; exact hnew)
  | resolves q' side' hpc hnode hpc' => exact .inl (hmoves hpc' fun hnew => by cases hnew)

/-- A call of `Transmit` that has returned true is still the last one, or has just been made. -/
theorem Step.signaling_cases (hs : Step τ σ σ' i) {rest : List (κ × Side)}
    (hj : σ'.pc j = .signaling q side true rest) : (∃ rest', σ.pc j = .signaling q side true rest') ∨
      j = i ∧ ∃ t, σ.pc i = .applying q side .transmit t ∧ ((σ.node i).transmit t).detect = true := by
  have hother {pc : Pc κ} (hpc' : σ'.pc = Function.update σ.pc i pc) (hnot : ∀ rest, pc ≠ .signaling q side true rest) :
      ∃ rest', σ.pc j = .signaling q side true rest' := by
    obtain ⟨rfl, hpc''⟩ | ⟨-, hpc''⟩ := update_pc hpc' j
    · exact absurd (hpc''.symm.trans hj) (hnot rest)
    · exact ⟨rest, hpc''.symm.trans hj⟩
  cases hs with
  | request q' side' side'' b hpc hend hside hnode hpc' => exact .inl ⟨rest, hpc' ▸ hj⟩
  | idle hpc heq => exact .inl ⟨rest, heq ▸ hj⟩
  | begins q' side' qsize pc hpc hend hb' hop hnode hpc' =>
    refine .inl (hother hpc' fun rest heq => ?_)
    obtain rfl | rfl := hop
    · cases heq
    · cases heq
  | enters q' side' op hpc hnode hpc' => exact .inl (hother hpc' fun _ heq => by cases heq)
  | reads q' side' op hpc hnode hpc' => exact .inl (hother hpc' fun _ heq => by cases heq)
  | blocks q' side' qsize t hpc hnode hpc' => exact .inl (hother hpc' fun _ heq => by cases heq)
  | transmits q' side' t hpc hnode hpc' =>
    obtain ⟨rfl, hpc''⟩ | ⟨-, hpc''⟩ := update_pc hpc' j
    · rw [hpc'', Pc.signaling.injEq] at hj
      obtain ⟨rfl, rfl, hdetect, -⟩ := hj
      exact .inr ⟨rfl, t, hpc, hdetect⟩
    · exact .inl ⟨rest, hpc''.symm.trans hj⟩
  | signals q' q'' side' side'' detect rest' hpc hnode hpc' =>
    obtain ⟨rfl, hpc''⟩ | ⟨-, hpc''⟩ := update_pc hpc' j
    · rw [hpc''] at hj
      cases hj
      exact .inl ⟨_, hpc⟩
    · exact .inl ⟨rest, hpc''.symm.trans hj⟩
  | leaves q' side' hpc hb' hnode hpc' => exact .inl (hother hpc' fun _ heq => by cases heq)
  | again q' side' pc hpc hb' hop hnode hpc' =>
    refine .inl (hother hpc' fun rest heq => ?_)
    obtain rfl | rfl := hop
    · cases heq
    · cases heq
  | waits q' side' hpc hb' hf hnode hpc' => exact .inl (hother hpc' fun _ heq => by cases heq)
  | resolves q' side' hpc hnode hpc' => exact .inl (hother hpc' fun _ heq => by cases heq)

private theorem Chained.followed_step (hσ : Chained τ σ) (hfits : (σ.pc i).Fits (σ.node i)) (hs : Step τ σ σ' i)
    (hj : (σ'.pc j).post = some (q, side)) (hne : (σ'.publicTag j).label ≠ (σ'.privateTag j).label) :
    (σ'.publicTag j).label ≤ (σ'.publicTag (τ.node q side.other)).label := by
  have hmono := Tag.label_le (hs.publicTag_mono hfits (τ.node q side.other))
  have hsame (hold : (σ.pc j).post = some (q, side)) (hpublic : σ'.publicTag j = σ.publicTag j)
      (hprivate : σ'.privateTag j = σ.privateTag j) :
      (σ'.publicTag j).label ≤ (σ'.publicTag (τ.node q side.other)).label := by
    rw [hpublic] at hne ⊢
    rw [hprivate] at hne
    exact (hσ.followed j q side hold hne).trans hmono
  obtain hold | ⟨rfl, qsize, t, hpc, hnode⟩ := hs.post_cases hj
  · obtain ⟨hnode, -⟩ | ⟨q', side', qsize, t, hpc, hnode⟩ | ⟨q', side', t, hpc, -, hnode⟩ := hs.node_cases
    · exact hsame hold (by rw [publicTag, hnode]; rfl) (by rw [privateTag, hnode]; rfl)
    · have hji : j ≠ i := by
        rintro rfl
        rw [hpc] at hold
        cases hold
      exact hsame hold (tags_of_ne hnode hji).1 (tags_of_ne hnode hji).2
    · by_cases hji : j = i
      · subst hji
        rw [hpc] at hold
        cases hold
        have hpublic : σ'.publicTag j = ((σ.node j).transmit t).node.publicTag := by
          rw [publicTag, hnode, Function.update_self]
        have hprivate : σ'.privateTag j = σ.privateTag j := by
          rw [privateTag, hnode, Function.update_self, Node.transmit_privateTag]
          rfl
        have houtcome := Node.transmit_outcome t (σ.node j)
        generalize (σ.node j).transmit t = r at houtcome hpublic
        cases houtcome with
        | raised hlt =>
          rw [hpublic]
          exact (Tag.label_le (hσ.tagged.read j _ t ⟨q, side, _, hpc, rfl⟩)).trans hmono
        | met heq => exact hsame (by rw [hpc]; rfl) hpublic hprivate
        | past hlt => exact hsame (by rw [hpc]; rfl) hpublic hprivate
      · exact hsame hold (tags_of_ne hnode hji).1 (tags_of_ne hnode hji).2
  · refine absurd ?_ hne
    rw [publicTag, privateTag, hnode, Function.update_self]
    rfl

/-- What shows a tag has shown it before, except for a tag that the step has made. -/
theorem shows_of_ne (hs : Step τ σ σ' i) {n : Node} (hnode : σ'.node = Function.update σ.node i n) (h : σ'.Shows τ j t)
    (hne : j = i → σ'.publicTag i ≠ t) : σ.Shows τ j t := by
  obtain hp | ⟨i', hr⟩ := h
  · by_cases hji : j = i
    · subst hji
      exact absurd hp (hne rfl)
    · exact .inl ((tags_of_ne hnode hji).1.symm.trans hp)
  · obtain hr | rfl := hs.reads_cases hr
    · exact .inr ⟨i', hr⟩
    · exact .inl rfl

/-- The tag of another node is live after the step only if it was before. -/
theorem Live.of_ne (hs : Step τ σ σ' i) (hlive : Live τ σ' t o) {n : Node}
    (hnode : σ'.node = Function.update σ.node i n) (hne : o ≠ i) : Live τ σ t o := by
  obtain ⟨hpublic, hprivate⟩ := tags_of_ne hnode hne
  obtain ⟨⟨q, side⟩, hpost⟩ := Option.isSome_iff_exists.1 hlive.post
  refine ⟨hlive.key, ?_, hpublic ▸ hlive.label, ?_⟩
  · obtain hold | ⟨heq, -⟩ := hs.post_cases hpost
    · rw [hold]
      rfl
    · exact absurd heq hne
  · have hown := hlive.own
    unfold Own at hown ⊢
    rwa [hpublic, hprivate] at hown

private theorem Chained.carried_block (hσ : Chained τ σ) (hs : Step τ σ σ' i) {qsize : UInt32} {t' : Tag}
    (hpc : σ.pc i = .applying q side (.block qsize) t') (hfits : (σ.pc i).Fits (σ.node i))
    (hnode : σ'.node = Function.update σ.node i ((σ.node i).block t' qsize)) (hshows : σ'.Shows τ j t)
    (hlive : Live τ σ' t o) : Carried τ σ' t o j := by
  have hpublic : σ'.publicTag i = ((σ.node i).block t' qsize).publicTag := by
    rw [publicTag, hnode, Function.update_self]
  have hkey : (σ'.publicTag i).queueKey = τ.key i := by
    rw [hpublic]
    exact ((hσ.tagged.sound i).block t' qsize).priorityKey
  by_cases hnew : j = i ∧ σ'.publicTag i = t
  · obtain ⟨rfl, rfl⟩ := hnew
    have hoj : o = j := τ.key_injective (hlive.key.symm.trans hkey)
    subst hoj
    exact .own
  · have hold := shows_of_ne hs hnode hshows fun hji heq => hnew ⟨hji, heq⟩
    by_cases hoi : o = i
    · -- no tag with the priority of the node has the new label
      subst hoi
      have hfits' := hfits
      rw [hpc] at hfits'
      have hlt : (σ.node o).publicTag.label < ((σ.node o).block t' qsize).publicTag.label :=
        (Node.label_lt_block _ hfits').1
      rw [← hpublic, hlive.label] at hlt
      exact absurd (hσ.tagged.earlier j t o hold hlive.key) hlt.not_ge
    · have hlive' := hlive.of_ne hs hnode hoi
      exact hσ.carried_step hfits hs hlive' hlive.post (hσ.carried j t o hold hlive')

private theorem Chained.carried_transmit (hσ : Chained τ σ) (hs : Step τ σ σ' i) {t' : Tag}
    (hpc : σ.pc i = .applying q side .transmit t') (hfits : (σ.pc i).Fits (σ.node i)) (hb : σ.blocked q side = true)
    (hblocked : σ'.blocked = σ.blocked) (hlt : σ.publicTag i < t')
    (hnode : σ'.node = Function.update σ.node i
      { σ.node i with publicTag := t'.setPriority (min (σ.privateTag i).priority t'.priority) })
    (hpost : (σ'.pc i).post = some (q, side)) (hshows : σ'.Shows τ j t) (hlive : Live τ σ' t o) :
    Carried τ σ' t o j := by
  have hreads : σ.Reads τ i (τ.node q side.other) t' := ⟨q, side, _, hpc, rfl⟩
  have hpublic : σ'.publicTag i = t'.setPriority (min (σ.privateTag i).priority t'.priority) := by
    rw [publicTag, hnode, Function.update_self]
  have hprivate : σ'.privateTag i = σ.privateTag i := by
    rw [privateTag, hnode, Function.update_self]
    rfl
  by_cases hnew : j = i ∧ σ'.publicTag i = t
  · obtain ⟨rfl, ht⟩ := hnew
    by_cases hoj : o = j
    · subst hoj
      exact .own
    · -- the priority is not the one of the node, so the tag is the one that has been read
      have hkey : (σ.privateTag j).priority ≠ t.priority := by
        intro heq
        refine hoj (τ.key_injective (hlive.key.symm.trans ?_))
        rw [← (hσ.tagged.sound j).priorityKey]
        exact congrArg UInt128.low heq.symm
      have hmin : min (σ.privateTag j).priority t'.priority = t'.priority := by
        refine (min_choice _ _).resolve_left fun hmin => hkey ?_
        rw [← ht, hpublic, hmin]
        rfl
      have htt : t = t' := by
        rw [← ht, hpublic, hmin]
        rfl
      subst htt
      have hlive' := hlive.of_ne hs hnode hoj
      have hcarried := hσ.carried (τ.node q side.other) t o (.inr ⟨j, hreads⟩) hlive'
      refine .step hpost (hblocked ▸ hb) ?_ ?_ ht.ge (hσ.carried_step hfits hs hlive' hlive.post hcarried)
      · rw [hprivate]
        exact (min_eq_right_iff.1 hmin).lt_of_ne hkey.symm
      · rw [hprivate]
        exact (hσ.tagged.sound j).label.trans (Tag.label_le hlt.le)
  · have hold := shows_of_ne hs hnode hshows fun hji heq => hnew ⟨hji, heq⟩
    by_cases hoi : o = i
    · subst hoi
      have hlabel : t'.label = t.label := by
        rw [← hlive.label, hpublic]
        rfl
      have hown : min (σ.privateTag o).priority t'.priority = (σ.privateTag o).priority := by
        have h := hlive.own
        rw [Own, hpublic, hprivate] at h
        exact h
      have hearlier := hσ.tagged.earlier j t o hold hlive.key
      rw [← hlabel] at hearlier
      -- the label is not new, so the priority has fallen below the one of the node
      rw [Tag.lt_iff] at hlt
      obtain hlt | ⟨-, hlt⟩ := hlt
      · exact absurd hearlier hlt.not_ge
      · exact absurd (min_eq_left_iff.1 hown) (hlt.trans_le (hσ.tagged.sound o).priority).not_ge
    · have hlive' := hlive.of_ne hs hnode hoi
      exact hσ.carried_step hfits hs hlive' hlive.post (hσ.carried j t o hold hlive')

/-- No tag changes. -/
theorem Chained.carried_quiet (hσ : Chained τ σ) (hs : Step τ σ σ' i) (hfits : (σ.pc i).Fits (σ.node i))
    (hnode : σ'.node = σ.node) (hpost : (σ'.pc o).post.isSome = true → (σ.pc o).post.isSome = true)
    (hshows : σ'.Shows τ j t) (hlive : Live τ σ' t o) : Carried τ σ' t o j := by
  have hpublic (j : ι) : σ'.publicTag j = σ.publicTag j := by
    rw [publicTag, hnode]
    rfl
  have hold : σ.Shows τ j t := by
    obtain hp | ⟨i', hr⟩ := hshows
    · exact .inl ((hpublic j).symm.trans hp)
    · obtain hr | rfl := hs.reads_cases hr
      · exact .inr ⟨i', hr⟩
      · exact .inl rfl
  have hlive' : Live τ σ t o := by
    refine ⟨hlive.key, hpost hlive.post, hpublic o ▸ hlive.label, ?_⟩
    have hown := hlive.own
    unfold Own publicTag privateTag at hown ⊢
    rwa [hnode] at hown
  exact hσ.carried_step hfits hs hlive' hlive.post (hσ.carried j t o hold hlive')

private theorem Chained.carried_next (hσ : Chained τ σ) (hs : Step τ σ σ' i) (hfits : (σ.pc i).Fits (σ.node i))
    (hchecked : ∀ q side t, σ.pc i = .applying q side .transmit t → σ.blocked q side = true)
    (hshows : σ'.Shows τ j t) (hlive : Live τ σ' t o) : Carried τ σ' t o j := by
  have hpost (hnot : ∀ q side qsize t, σ.pc i ≠ .applying q side (.block qsize) t)
      (h : (σ'.pc o).post.isSome = true) : (σ.pc o).post.isSome = true := by
    obtain ⟨⟨q, side⟩, hq⟩ := Option.isSome_iff_exists.1 h
    obtain hold | ⟨-, qsize, t, hpc, -⟩ := hs.post_cases hq
    · rw [hold]
      rfl
    · exact absurd hpc (hnot q side qsize t)
  obtain ⟨hnode, hnot⟩ | ⟨q, side, qsize, t', hpc, hnode⟩ | ⟨q, side, t', hpc, ⟨hblocked, hpost'⟩, hnode⟩ := hs.node_cases
  · exact hσ.carried_quiet hs hfits hnode (hpost fun q side qsize t => hnot q side _ t) hshows hlive
  · exact hσ.carried_block hs hpc hfits hnode hshows hlive
  · have hnot (q' : κ) (side' : Side) (qsize : UInt32) (t : Tag) : σ.pc i ≠ .applying q' side' (.block qsize) t := by
      rw [hpc]
      exact fun heq => by cases heq
    have houtcome := Node.transmit_outcome t' (σ.node i)
    generalize (σ.node i).transmit t' = r at houtcome hnode
    cases houtcome with
    | raised hlt =>
      exact hσ.carried_transmit hs hpc hfits (hchecked q side t' hpc) hblocked hlt hnode hpost' hshows hlive
    | met heq =>
      rw [Function.update_eq_self] at hnode
      exact hσ.carried_quiet hs hfits hnode (hpost hnot) hshows hlive
    | past hlt =>
      rw [Function.update_eq_self] at hnode
      exact hσ.carried_quiet hs hfits hnode (hpost hnot) hshows hlive

/-- The last call of `Transmit` of a node that has returned true has found its tag at the end of the way. -/
theorem Chained.returned_next (hσ : Chained τ σ) (hs : Step τ σ σ' i) (hfits : (σ.pc i).Fits (σ.node i))
    {rest : List (κ × Side)} (hj : σ'.pc j = .signaling q side true rest) :
    σ'.Own j ∧ Carried τ σ' (σ'.publicTag j) j (τ.node q side.other) := by
  -- the tags of the node are the same before and after, and so they come back as before
  have hback {t : Tag} (hpublic : σ'.publicTag j = σ.publicTag j) (hprivate : σ'.privateTag j = σ.privateTag j)
      (ht : σ.publicTag j = t) (hown : σ.Own j) (hpost : (σ.pc j).post.isSome = true)
      (hcarried : Live τ σ t j → Carried τ σ t j (τ.node q side.other)) :
      σ'.Own j ∧ Carried τ σ' (σ'.publicTag j) j (τ.node q side.other) := by
    have hlive : Live τ σ t j := by
      refine ⟨?_, hpost, by rw [ht], hown⟩
      rw [← (hσ.tagged.sound j).priorityKey, ← ht]
      exact congrArg UInt128.low hown
    refine ⟨?_, ?_⟩
    · unfold Own at hown ⊢
      rwa [hpublic, hprivate]
    · rw [hpublic, ht]
      exact hσ.carried_step hfits hs hlive (by rw [hj]; rfl) (hcarried hlive)
  obtain ⟨rest', hold⟩ | ⟨rfl, t, hpc, hdetect⟩ := hs.signaling_cases hj
  · have hpost : (σ.pc j).post.isSome = true := by
      rw [hold]
      rfl
    obtain ⟨hown, hcarried⟩ := hσ.returned j q side rest' hold
    have hpublic : σ'.publicTag j = σ.publicTag j := by
      obtain ⟨hnode, -⟩ | ⟨q', side', qsize, t, hpc, hnode⟩ | ⟨q', side', t, hpc, -, hnode⟩ := hs.node_cases
      · rw [publicTag, hnode]
        rfl
      · refine (tags_of_ne hnode ?_).1
        rintro rfl
        rw [hold] at hpc
        cases hpc
      · refine (tags_of_ne hnode ?_).1
        rintro rfl
        rw [hold] at hpc
        cases hpc
    exact hback hpublic (hs.privateTag_eq hpost) rfl hown hpost fun _ => hcarried
  · have hpost : (σ.pc j).post.isSome = true := by
      rw [hpc]
      rfl
    obtain ⟨heq, hown⟩ := Node.detect_iff.1 hdetect
    have hpublic : σ'.publicTag j = σ.publicTag j := by
      obtain ⟨hnode, -⟩ | ⟨q', side', qsize, t, hpc', hnode⟩ | ⟨q', side', t', hpc', -, hnode⟩ := hs.node_cases
      · rw [publicTag, hnode]
        rfl
      · rw [hpc] at hpc'
        cases hpc'
      · rw [hpc] at hpc'
        cases hpc'
        rw [publicTag, hnode, Function.update_self, Node.node_of_detect hdetect]
        rfl
    exact hback hpublic (hs.privateTag_eq hpost) heq hown hpost
      fun hlive => hσ.carried _ t j (.inr ⟨j, q, side, _, hpc, rfl⟩) hlive

private theorem Chained.next (hσ : Chained τ σ) (hs : Step τ σ σ' i) (hfits : (σ.pc i).Fits (σ.node i))
    (hchecked : ∀ q side t, σ.pc i = .applying q side .transmit t → σ.blocked q side = true) : Chained τ σ' where
  tagged := hσ.tagged.step hfits hs
  placed j q side hj := by
    obtain hold | ⟨rfl, hend⟩ := hs.at_cases hj
    · exact hσ.placed j q side hold
    · exact hend
  followed j q side hj hne := hσ.followed_step hfits hs hj hne
  carried j t o hshows hlive := hσ.carried_next hs hfits hchecked hshows hlive
  returned j q side rest hj := hσ.returned_next hs hfits hj

end State

/-! ### Runs -/

section Runs

/-- A node that is about to take over a tag still waits for the node that has it. -/
def Pc.StillBlocked (blocked : κ → Side → Bool) : Pc κ → Prop
  | .applying q side .transmit _ => blocked q side = true
  | _ => True

instance (n : Node) : (pc : Pc κ) → Decidable (pc.Fits n)
  | .applying _ _ (.block _) t =>
    inferInstanceAs (Decidable (n.publicTag.count.toNat + 1 < 2 ^ 64 ∧ t.count.toNat + 1 < 2 ^ 64))
  | .applying _ _ .transmit _ | .running | .entering .. | .reading .. | .signaling .. | .waiting .. => isTrue trivial

instance (blocked : κ → Side → Bool) : (pc : Pc κ) → Decidable (pc.StillBlocked blocked)
  | .applying q side .transmit _ => inferInstanceAs (Decidable (blocked q side = true))
  | .applying _ _ (.block _) _ | .running | .entering .. | .reading .. | .signaling .. | .waiting .. => isTrue trivial

/-- The counts do not wrap. -/
def CountsFit (σ : State ι κ) (a : Act ι κ) : Prop := (σ.pc a.node).Fits (σ.node a.node)

/-- The counts do not wrap, and the queue of a node is looked at again before `Transmit`. -/
def Rechecked (σ : State ι κ) (a : Act ι κ) : Prop := CountsFit σ a ∧ (σ.pc a.node).StillBlocked σ.blocked

instance (σ : State ι κ) (a : Act ι κ) : Decidable (CountsFit σ a) :=
  inferInstanceAs (Decidable ((σ.pc a.node).Fits (σ.node a.node)))

instance (σ : State ι κ) (a : Act ι κ) : Decidable (Rechecked σ a) :=
  inferInstanceAs (Decidable (CountsFit σ a ∧ (σ.pc a.node).StillBlocked σ.blocked))

variable [DecidableEq ι] [DecidableEq κ]

private theorem chained_of_reachableBy (h : (machine τ).ReachableBy Rechecked σ) : State.Chained τ σ := by
  refine h.invariant (fun σ hσ => ?_) fun σ a σ' hσ hok hn => ?_
  · obtain ⟨hnode, hpc, -⟩ := hσ
    have hat (i : ι) (q : κ) (side : Side) : (σ.pc i).at ≠ some (q, side) := by
      rw [hpc]
      exact fun heq => by cases heq
    refine ⟨.init hnode hpc, fun i q side hi => absurd hi (hat i q side),
      fun i q side hi => absurd (Pc.at_of_post hi) (hat i q side), fun j t o _ hlive => ?_, fun i q side rest hi => ?_⟩
    · have hpost := hlive.post
      rw [hpc] at hpost
      cases hpost
    · rw [hpc] at hi
      cases hi
  · obtain ⟨hfits, hchecked⟩ := hok
    refine hσ.next (step_of_next hn) hfits fun q side t hpc => ?_
    rw [hpc] at hchecked
    exact hchecked

/-- Along runs in which a node looks at its queue again before it takes a tag over, a node for which `Transmit` returns true
is on a cycle of nodes each of which waits, at that moment, for the next one. -/
theorem detection_is_deadlock (τ : Topology ι κ) {σ : State ι κ} (h : (machine τ).ReachableBy Rechecked σ) {i : ι} {q : κ}
    {side : Side} {t : Tag} (hpc : σ.pc i = .applying q side .transmit t) (hblocked : σ.blocked q side = true)
    (hdetect : ((σ.node i).transmit t).detect = true) : Relation.TransGen (σ.WaitsOn τ) i i := by
  have hσ := chained_of_reachableBy h
  obtain ⟨heq, hown⟩ := Node.detect_iff.1 hdetect
  have hlive : State.Live τ σ t i := by
    refine ⟨?_, by rw [hpc]; rfl, congrArg Tag.label heq, hown⟩
    rw [← (hσ.tagged.sound i).priorityKey, ← heq]
    exact congrArg UInt128.low hown
  have hcarried := hσ.carried (τ.node q side.other) t i (.inr ⟨i, q, side, _, hpc, rfl⟩) hlive
  exact .head' ⟨q, side, by rw [hpc]; rfl, hblocked, rfl⟩ hcarried.waitsOn

/-- Two nodes, each of which reads what the other one writes. -/
def pair : Topology Bool Bool where
  key b := if b then 2 else 1
  key_injective := by decide
  node
    | q, .reader => !q
    | q, .writer => q
  links b := [(!b, .reader), (b, .writer)]
  mem_links q side := by cases q <;> cases side <;> decide

/-- Both nodes read from an empty queue, and the tag of the first comes back to it. -/
def bothRead : List (Act Bool Bool) :=
  [.request true false .reader true, .readBlock true false, .go true false, .go true false, .go true false,
    .go true false, .go true false, .request false true .reader true, .readBlock false true, .go false false,
    .go false false, .go false false, .go false false, .go false false, .go true false, .go true false, .go true false,
    .go true false, .go true false, .go true false, .go false false, .go false false]

def idlePair : State Bool Bool where
  node i := .create (pair.key i)
  queue _ := {}
  pc _ := .running

theorem detection_is_deadlock_pair : ∃ (σ : State Bool Bool) (t : Tag), σ.pc false = .applying true .reader .transmit t ∧
    Relation.TransGen (σ.WaitsOn pair) false false := by
  obtain ⟨σ, hσ⟩ : ∃ σ, (machine pair).runBy Rechecked idlePair bothRead = some σ := ⟨_, rfl⟩
  have hrun : (machine pair).ReachableBy Rechecked σ := .of_runBy (.init ⟨fun _ => rfl, fun _ => rfl, fun _ => rfl⟩) hσ
  obtain ⟨t, hpc, hb, hdetect⟩ : ∃ t, σ.pc false = .applying true .reader .transmit t ∧ σ.blocked true .reader = true ∧
      ((σ.node false).transmit t).detect = true := by
    cases hσ
    exact ⟨_, rfl, rfl, rfl⟩
  exact ⟨σ, t, hpc, detection_is_deadlock pair hrun hpc hb hdetect⟩

/-- The first two nodes read what the other one writes, and the second one also what the third one writes. -/
def three : Topology (Fin 3) (Fin 3) where
  key := ![2, 1, 3]
  key_injective := by decide
  node
    | 0, .reader => 1
    | 0, .writer => 0
    | 1, .reader => 0
    | 1, .writer => 1
    | 2, .reader => 1
    | 2, .writer => 2
  links
    | 0 => [(1, .reader), (0, .writer)]
    | 1 => [(0, .reader), (2, .reader), (1, .writer)]
    | 2 => [(2, .writer)]
  mem_links q side := by fin_cases q <;> cases side <;> decide

/-- The first node waits for the second one, which is about to be looked at again when it is let go by the third, lets the
first one go and waits for it. -/
def passedOn : List (Act (Fin 3) (Fin 3)) :=
  [.request 0 1 .reader true, .readBlock 0 1, .go 0 false, .go 0 false, .go 0 false, .go 0 false, .go 0 false,
    .request 1 2 .reader true, .readBlock 1 2, .go 1 false, .go 1 false, .go 1 false, .go 1 false, .go 1 false,
    .go 1 false, .go 0 false, .serve 2 2 .writer, .go 1 false, .serve 1 1 .writer, .request 1 0 .reader true,
    .readBlock 1 0, .go 1 false, .go 1 false, .go 1 false, .go 1 false, .go 1 false, .go 1 false, .go 0 false,
    .go 0 false, .go 0 false, .go 0 false, .go 1 false, .go 1 false]

def idleThree : State (Fin 3) (Fin 3) where
  node i := .create (three.key i)
  queue _ := {}
  pc _ := .running

/-- Without the check `Transmit` returns true for a node that waits for one that does not wait. -/
theorem phantom_deadlock : ∃ (σ : State (Fin 3) (Fin 3)) (t : Tag), (machine three).ReachableBy CountsFit σ ∧
    σ.pc 1 = .applying 0 .reader .transmit t ∧ σ.blocked 0 .reader = true ∧
    ((σ.node 1).transmit t).detect = true ∧ three.node 0 .writer = 0 ∧ ∀ n, ¬ σ.WaitsOn three 0 n := by
  obtain ⟨σ, hσ⟩ : ∃ σ, (machine three).runBy CountsFit idleThree passedOn = some σ := ⟨_, rfl⟩
  have hrun : (machine three).ReachableBy CountsFit σ := .of_runBy (.init ⟨fun _ => rfl, fun _ => rfl, fun _ => rfl⟩) hσ
  obtain ⟨t, hpc, hb, hdetect, hat, hfree⟩ : ∃ t, σ.pc 1 = .applying 0 .reader .transmit t ∧
      σ.blocked 0 .reader = true ∧ ((σ.node 1).transmit t).detect = true ∧ (σ.pc 0).at = some (1, .reader) ∧
      σ.blocked 1 .reader = false := by
    cases hσ
    exact ⟨_, rfl, rfl, rfl, rfl, rfl⟩
  refine ⟨σ, t, hrun, hpc, hb, hdetect, rfl, ?_⟩
  rintro n ⟨q, side, hq, hblocked, -⟩
  rw [hat] at hq
  cases hq
  rw [hfree] at hblocked
  cases hblocked

end Runs

end ProcessNetwork.D4R
