import ProcessNetwork.RandomInstructionGenerator
import ProcessNetwork.Lib.Machine
import ProcessNetwork.Lib.Rounding

/-!
# The state of the generator

The live nodes, the chain and the ids over a run of the generator.  The ids count up, so that none is used twice, until
`maxID`, which is `unsigned`, wraps.  The operation is selected by unsigned differences; each of them is taken only where the
tests before it show that it does not wrap.  A chain of more than `2 ^ 31` nodes has no calls: the index of the loop
overflows
before the consumer.
-/

namespace ProcessNetwork

namespace RandomInstructionGenerator

variable {P : Type} {F : Floats P} {g g' : RandomInstructionGenerator P} {calls : List (Call P)} {state : State P}

/-! ### Chains -/

/-- The calls after the producer of a chain, where `b` comes after `a`: each node has its neighbours as source and
destination. -/
def links : UInt32 → UInt32 → List UInt32 → List (Call P)
  | a, b, [] => [.doConsumerNode b a]
  | a, b, c :: l => .doTransmuterNode b a c :: links b c l

/-- The calls for a chain; there is none for fewer than two nodes. -/
def chainCalls : List UInt32 → List (Call P)
  | a :: b :: l => .doProducerNode a b :: links a b l
  | _ => []

private theorem links_eq (a b : UInt32) (l : List UInt32) :
    ((List.range' 1 l.length).map fun idx => Call.doTransmuterNode (P := P) ((a :: b :: l).getD idx 0)
        ((a :: b :: l).getD (idx - 1) 0) ((a :: b :: l).getD (idx + 1) 0)) ++
      [.doConsumerNode ((a :: b :: l).getD (l.length + 1) 0) ((a :: b :: l).getD l.length 0)] = links a b l := by
  induction l generalizing a b with
  | nil => rfl
  | cons c l ih =>
    have hshift : List.range' 2 l.length = (List.range' 1 l.length).map (· + 1) :=
      (List.map_add_range' (a := 1) 1 l.length 1).symm.trans (List.map_congr_left fun x _ => add_comm 1 x)
    rw [links, ← ih b c, List.length_cons, List.range'_succ, List.map_cons, List.cons_append, hshift, List.map_map]
    congr 2
    refine List.map_congr_left fun idx hidx => ?_
    obtain ⟨j, rfl⟩ := Nat.exists_eq_add_of_le (List.mem_range'_1.1 hidx).1
    rw [add_comm 1 j]
    rfl

/-- A chain that the index can count. -/
theorem endCurrentChain_of_le (h : g.currentChain.length ≤ 2 ^ 31) :
    g.endCurrentChain = (chainCalls g.currentChain, some { g with currentChain := [] }) := by
  unfold endCurrentChain
  dsimp only
  split_ifs with hshort
  · have hnone : chainCalls (P := P) g.currentChain = [] := by
      match g.currentChain, hshort with
      | [], _ => rfl
      | [_], _ => rfl
    rw [hnone]
  · obtain ⟨a, b, l, hl⟩ : ∃ a b l, g.currentChain = a :: b :: l := by
      cases hl : g.currentChain with
      | nil => simp [hl] at hshort
      | cons a l =>
        cases l with
        | nil => simp [hl] at hshort
        | cons b l => exact ⟨a, b, l, rfl⟩
    rw [hl, chainCalls, ← links_eq a b l]
    rfl

private theorem endCurrentChain_of_nil (h : g.currentChain = []) :
    g.endCurrentChain = ([], some { g with currentChain := [] }) := by
  rw [endCurrentChain_of_le (by simp [h]), h]
  rfl

/-- The index overflows: the program does not come to the consumer. -/
theorem endCurrentChain_of_lt (h : 2 ^ 31 < g.currentChain.length) :
    g.endCurrentChain.2 = none ∧ ∀ call ∈ g.endCurrentChain.1,
      (∃ id dst, call = .doProducerNode id dst) ∨ ∃ id src dst, call = .doTransmuterNode id src dst := by
  unfold endCurrentChain
  dsimp only
  rw [if_neg (by omega), if_neg (by omega)]
  split_ifs
  · exact ⟨rfl, fun call hcall => (by cases hcall)⟩
  · refine ⟨rfl, fun call hcall => ?_⟩
    obtain rfl | hcall := List.mem_cons.1 hcall
    · exact .inl ⟨_, _, rfl⟩
    · obtain ⟨idx, -, rfl⟩ := List.mem_map.1 hcall
      exact .inr ⟨_, _, _, rfl⟩

private theorem endCurrentChain_spec (h : g.endCurrentChain.2 = some g') :
    g.currentChain.length ≤ 2 ^ 31 ∧ g.endCurrentChain.1 = chainCalls g.currentChain ∧ g' =
      { g with currentChain := [] } := by
  obtain hle | hlt := le_or_gt g.currentChain.length (2 ^ 31)
  · rw [endCurrentChain_of_le hle] at h ⊢
    exact ⟨hle, rfl, (Option.some.inj h).symm⟩
  · rw [(endCurrentChain_of_lt hlt).1] at h
    cases h

private theorem exists_consumer_mem_links (a b : UInt32) (l : List UInt32) :
    ∃ id src, Call.doConsumerNode (P := P) id src ∈ links a b l := by
  induction l generalizing a b with
  | nil => exact ⟨b, a, List.mem_singleton_self _⟩
  | cons c l ih =>
    obtain ⟨id, src, hmem⟩ := ih b c
    exact ⟨id, src, List.mem_cons_of_mem _ hmem⟩

private theorem exists_consumer_mem_chainCalls {l : List UInt32} (h : 1 < l.length) :
    ∃ id src, Call.doConsumerNode (P := P) id src ∈ chainCalls l := by
  cases l with
  | nil => simp at h
  | cons a l =>
    cases l with
    | nil => simp at h
    | cons b l =>
      obtain ⟨id, src, hmem⟩ := exists_consumer_mem_links (P := P) a b l
      exact ⟨id, src, List.mem_cons_of_mem _ hmem⟩

/-- No node is created or deleted by the calls for a chain. -/
theorem links_spec (a b : UInt32) (l : List UInt32) :
    (∀ id creator st, Call.doCreateNode (P := P) id creator st ∉ links a b l) ∧ ∀ id,
      Call.doDeleteNode (P := P) id ∉ links a b l := by
  induction l generalizing a b with
  | nil => simp [links]
  | cons c l ih =>
    obtain ⟨hcreate, hdelete⟩ := ih b c
    simp [links, hcreate, hdelete]

theorem chainCalls_spec (l : List UInt32) :
    (∀ id creator st, Call.doCreateNode (P := P) id creator st ∉ chainCalls l) ∧
      ∀ id, Call.doDeleteNode (P := P) id ∉ chainCalls l := by
  cases l with
  | nil => simp [chainCalls]
  | cons a l =>
    cases l with
    | nil => simp [chainCalls]
    | cons b l =>
      obtain ⟨hcreate, hdelete⟩ := links_spec (P := P) a b l
      simp [chainCalls, hcreate, hdelete]

/-- The calls of `EndCurrentChain` neither create nor delete a node, also where it does not return. -/
theorem endCurrentChain_notMem (g : RandomInstructionGenerator P) :
    (∀ id creator st, .doCreateNode id creator st ∉ g.endCurrentChain.1) ∧ ∀ id, .doDeleteNode id ∉ g.endCurrentChain.1 := by
  obtain hle | hlt := le_or_gt g.currentChain.length (2 ^ 31)
  · rw [endCurrentChain_of_le hle]
    exact chainCalls_spec _
  · have hcalls := (endCurrentChain_of_lt hlt).2
    constructor
    · intro id creator st hmem
      obtain ⟨_, _, hcall⟩ | ⟨_, _, _, hcall⟩ := hcalls _ hmem <;> cases hcall
    · intro id hmem
      obtain ⟨_, _, hcall⟩ | ⟨_, _, _, hcall⟩ := hcalls _ hmem <;> cases hcall

theorem Outcome.andThen_of {x : Outcome P} (h : x.2 = some g) (f : RandomInstructionGenerator P → Outcome P) :
    x.andThen f = (x.1 ++ (f g).1, (f g).2) := by
  rw [andThen, h]

theorem Outcome.andThen_none {x : Outcome P} (h : x.2 = none) (f : RandomInstructionGenerator P → Outcome P) :
    x.andThen f = x := by
  rw [andThen, h]

private theorem Outcome.andThen_eq_some {x : Outcome P} {f : RandomInstructionGenerator P → Outcome P}
    (h : (x.andThen f).2 = some g') : ∃ g, x.2 = some g ∧ (f g).2 = some g' ∧ (x.andThen f).1 = x.1 ++ (f g).1 := by
  cases hx : x.2 with
  | none =>
    rw [andThen_none hx, hx] at h
    cases h
  | some g =>
    rw [andThen_of hx] at h ⊢
    exact ⟨g, rfl, h, rfl⟩

/-! ### The ranges -/

theorem computeRanges_eq (h : computeRanges F g = some g') :
    ∃ a b c d, g' = { g with createRange := a, deleteRange := b, chainRange := c, noopRange := d } := by
  unfold computeRanges at h
  dsimp only at h
  split_ifs at h
  exact ⟨_, _, _, _, (Option.some.inj h).symm⟩

/-- The operation that the number selects when the differences are those of the integers. -/
def exactOpcode (g : RandomInstructionGenerator P) (prnum : ℕ) : Opcode :=
  if 0 < g.createRange.toNat ∧ prnum ≤ g.createRange.toNat then .create
  else if 0 < g.deleteRange.toNat ∧ (prnum : ℤ) - g.createRange.toNat ≤ g.deleteRange.toNat then .delete
  else if (prnum : ℤ) - g.createRange.toNat - g.deleteRange.toNat ≤ g.chainRange.toNat then .chain
  else if (prnum : ℤ) - g.createRange.toNat - g.deleteRange.toNat - g.chainRange.toNat ≤ g.noopRange.toNat then .noop
  else .unknown

private theorem toNat_sub {p : UInt64} {c : UInt32} (h : c.toNat ≤ p.toNat) :
    (p - c.toUInt64).toNat = p.toNat - c.toNat := by
  rw [UInt64.toNat_sub_of_le, UInt32.toNat_toUInt64]
  rwa [UInt64.le_iff_toNat_le, UInt32.toNat_toUInt64]

private theorem le_iff {p : UInt64} {c : UInt32} : p ≤ c.toUInt64 ↔ p.toNat ≤ c.toNat := by
  rw [UInt64.le_iff_toNat_le, UInt32.toNat_toUInt64]

private theorem pos_iff {c : UInt32} : 0 < c ↔ 0 < c.toNat := UInt32.lt_iff_toNat_lt

/-- What the number is above when the operation is neither to create nor to delete. -/
structure Above (g : RandomInstructionGenerator P) (p : UInt64) : Prop where
  create : ¬ (0 < g.createRange.toNat ∧ p.toNat ≤ g.createRange.toNat)
  delete : ¬ (0 < g.deleteRange.toNat ∧ p.toNat - g.createRange.toNat ≤ g.deleteRange.toNat)
  createRange_le : g.createRange.toNat ≤ p.toNat
  deleteRange_le : g.deleteRange.toNat ≤ p.toNat - g.createRange.toNat

private theorem Above.toNat_sub_sub {p : UInt64} (h : Above g p) :
    (p - g.createRange.toUInt64 - g.deleteRange.toUInt64).toNat = p.toNat - g.createRange.toNat - g.deleteRange.toNat := by
  have hsub := toNat_sub h.createRange_le
  rw [toNat_sub, hsub]
  rw [hsub]
  exact h.deleteRange_le

/-- No difference that selects the operation wraps. -/
theorem opcode_eq (g : RandomInstructionGenerator P) (p : UInt64) :
    g.opcode p = g.exactOpcode p.toNat ∧ (g.opcode p = .chain → Above g p) := by
  unfold opcode exactOpcode
  by_cases hcreate : 0 < g.createRange.toNat ∧ p.toNat ≤ g.createRange.toNat
  · rw [if_pos hcreate, if_pos ⟨pos_iff.2 hcreate.1, le_iff.2 hcreate.2⟩]
    exact ⟨rfl, fun h => (by cases h)⟩
  · have hc : g.createRange.toNat ≤ p.toNat := by omega
    have hcreate' : ¬ (0 < g.createRange ∧ p ≤ g.createRange.toUInt64) := fun h => hcreate ⟨pos_iff.1 h.1, le_iff.1 h.2⟩
    rw [if_neg hcreate, if_neg hcreate']
    have hdeleteZ : 0 < g.deleteRange.toNat ∧ (p.toNat : ℤ) - g.createRange.toNat ≤ g.deleteRange.toNat ↔
        0 < g.deleteRange.toNat ∧ p.toNat - g.createRange.toNat ≤ g.deleteRange.toNat := by omega
    by_cases hdelete : 0 < g.deleteRange.toNat ∧ p.toNat - g.createRange.toNat ≤ g.deleteRange.toNat
    · have hle : p - g.createRange.toUInt64 ≤ g.deleteRange.toUInt64 := le_iff.2 ((toNat_sub hc).trans_le hdelete.2)
      rw [if_pos ⟨pos_iff.2 hdelete.1, hle⟩, if_pos (hdeleteZ.2 hdelete)]
      exact ⟨rfl, fun h => (by cases h)⟩
    · have habove : Above g p := ⟨hcreate, hdelete, hc, by omega⟩
      have hdelete' : ¬ (0 < g.deleteRange ∧ p - g.createRange.toUInt64 ≤ g.deleteRange.toUInt64) :=
        fun h => hdelete ⟨pos_iff.1 h.1, (toNat_sub hc).symm.trans_le (le_iff.1 h.2)⟩
      have hd := habove.deleteRange_le
      have hsub := habove.toNat_sub_sub
      have hchainZ : (p.toNat : ℤ) - g.createRange.toNat - g.deleteRange.toNat ≤ g.chainRange.toNat ↔
          p.toNat - g.createRange.toNat - g.deleteRange.toNat ≤ g.chainRange.toNat := by omega
      rw [if_neg hdelete', if_neg (fun h => hdelete (hdeleteZ.1 h))]
      by_cases hchain : p.toNat - g.createRange.toNat - g.deleteRange.toNat ≤ g.chainRange.toNat
      · rw [if_pos (le_iff.2 (hsub.trans_le hchain)), if_pos (hchainZ.2 hchain)]
        exact ⟨rfl, fun _ => habove⟩
      · have hn := toNat_sub (p := p - g.createRange.toUInt64 - g.deleteRange.toUInt64) (c := g.chainRange)
          (by rw [hsub]; omega)
        rw [hsub] at hn
        have hnoopZ : (p.toNat : ℤ) - g.createRange.toNat - g.deleteRange.toNat - g.chainRange.toNat ≤ g.noopRange.toNat ↔
            p.toNat - g.createRange.toNat - g.deleteRange.toNat - g.chainRange.toNat ≤ g.noopRange.toNat := by omega
        rw [if_neg (fun h => hchain (hsub.symm.trans_le (le_iff.1 h))), if_neg (fun h => hchain (hchainZ.1 h))]
        refine ⟨?_, fun h => ?_⟩
        · by_cases hnoop : p.toNat - g.createRange.toNat - g.deleteRange.toNat - g.chainRange.toNat ≤ g.noopRange.toNat
          · rw [if_pos (le_iff.2 (hn.trans_le hnoop)), if_pos (hnoopZ.2 hnoop)]
          · rw [if_neg (fun h => hnoop (hn.symm.trans_le (le_iff.1 h))), if_neg (fun h => hnoop (hnoopZ.1 h))]
        · exact habove

private theorem toNat_sub_one {p : UInt64} (h : 0 < p.toNat) : (p - 1).toNat = p.toNat - 1 :=
  UInt64.toNat_sub_of_le p 1 (UInt64.le_iff_toNat_le.2 h)

/-- Nor does the difference for the index of the node of a chain. -/
theorem toNat_chainIndex {p : UInt64} (hp : 0 < p.toNat) (h : g.opcode p = .chain) :
    ((p - g.createRange.toUInt64 - g.deleteRange.toUInt64 - 1).toNat : ℤ) =
      (p.toNat : ℤ) - g.createRange.toNat - g.deleteRange.toNat - 1 := by
  have hsub := ((opcode_eq g p).2 h).toNat_sub_sub
  obtain ⟨hcreate, hdelete, hc, hd⟩ := (opcode_eq g p).2 h
  rw [toNat_sub_one (by rw [hsub]; omega), hsub]
  omega

/-! ### The invariant -/

/-- What holds between the operations.  `calls` are all calls since the generator was made. -/
structure Sound (g : RandomInstructionGenerator P) (calls : List (Call P)) : Prop where
  nonempty : g.liveNodes ≠ []
  nodup : g.liveNodes.Nodup
  le_maxID : ∀ id ∈ g.liveNodes, id ≤ g.maxID
  created : ∀ id creator st, .doCreateNode id creator st ∈ calls → id ≤ g.maxID
  deleted : ∀ id, .doDeleteNode id ∈ calls → id ≤ g.maxID ∧ id ∉ g.liveNodes
  chain_nodup : g.currentChain.Nodup
  chain_subset : g.currentChain ⊆ g.liveNodes

/-- The next operation ends the chain: it creates or deletes a node, or it selects one that is in the chain. -/
def EndsChain (g : RandomInstructionGenerator P) : Prop :=
  g.opcode g.draw.seed = .create ∨ g.opcode g.draw.seed = .delete ∨
    g.opcode g.draw.seed = .chain ∧ ∃ id ∈ g.currentChain, g.liveNodes[g.chainIndex g.draw.seed]? = some id

/-- A chain that is ended is one that the index can count. -/
def ChainFits (g : RandomInstructionGenerator P) : Prop := g.EndsChain → g.currentChain.length ≤ 2 ^ 31

/-- An operation that creates a node finds an id, and one that ends the chain finds a chain that fits. -/
structure Meets (g : RandomInstructionGenerator P) : Prop where
  id : g.opcode g.draw.seed = .create → g.maxID.toNat + 1 < 2 ^ 32
  chain : g.ChainFits

/-- The generator made from the state, with the calls so far. -/
def generatorMachine (F : Floats P) (state : State P) : Machine (RandomInstructionGenerator P × List (Call P)) Unit where
  init s := create F state = some s.1 ∧ s.2 = []
  next s _ := (runOnce F s.1).2.map fun g => (g, s.2 ++ (runOnce F s.1).1)

private theorem next_of_runOnce {calls' : List (Call P)} (h : runOnce F g = (calls', some g')) :
    (generatorMachine F state).next (g, calls) () = some (g', calls ++ calls') := by
  unfold generatorMachine
  dsimp only
  rw [h]
  rfl

private theorem Sound.ranges (h : Sound g calls) (hc : computeRanges F g = some g') : Sound g' calls := by
  obtain ⟨a, b, c, d, rfl⟩ := computeRanges_eq hc
  exact ⟨h.nonempty, h.nodup, h.le_maxID, h.created, h.deleted, h.chain_nodup, h.chain_subset⟩

private theorem Sound.draw (h : Sound g calls) : Sound g.draw calls :=
  ⟨h.nonempty, h.nodup, h.le_maxID, h.created, h.deleted, h.chain_nodup, h.chain_subset⟩

/-- The calls for a chain do not matter. -/
theorem Sound.append_chain (h : Sound g calls) (l : List UInt32) : Sound g (calls ++ chainCalls l) := by
  obtain ⟨hcreate, hdelete⟩ := chainCalls_spec (P := P) l
  refine ⟨h.nonempty, h.nodup, h.le_maxID, fun id creator st hmem => ?_, fun id hmem => ?_, h.chain_nodup, h.chain_subset⟩
  · exact h.created id creator st ((List.mem_append.1 hmem).resolve_right (hcreate id creator st))
  · exact h.deleted id ((List.mem_append.1 hmem).resolve_right (hdelete id))

private theorem Sound.endChain (h : Sound g calls) :
    Sound { g with currentChain := [] } (calls ++ chainCalls g.currentChain) := by
  have hchain := h.append_chain g.currentChain
  exact ⟨h.nonempty, h.nodup, h.le_maxID, hchain.created, hchain.deleted, List.nodup_nil, List.nil_subset _⟩

private theorem Sound.afterChainOp (h : Sound g calls) {id : UInt32} (hop : (handleChainOp g id).2 = some g') :
    Sound g' (calls ++ (handleChainOp g id).1) := by
  unfold handleChainOp at hop ⊢
  split_ifs at hop ⊢ with hchain hlive
  · obtain ⟨-, hcalls, rfl⟩ := endCurrentChain_spec hop
    rw [hcalls]
    exact h.endChain
  · obtain rfl := Option.some.inj hop
    rw [List.append_nil]
    refine ⟨h.nonempty, h.nodup, h.le_maxID, h.created, h.deleted, ?_, ?_⟩
    · exact List.Nodup.append h.chain_nodup (List.nodup_singleton id) (by simpa using hchain)
    · exact List.append_subset.2 ⟨h.chain_subset, by simpa using hlive⟩
  · obtain rfl := Option.some.inj hop
    rw [List.append_nil]
    exact h

private theorem Sound.afterDeleteOp (h : Sound g calls) {id : UInt32} (hop : (handleDeleteOp F g id).2 = some g') :
    Sound g' (calls ++ (handleDeleteOp F g id).1) := by
  unfold handleDeleteOp at hop ⊢
  obtain ⟨g₁, hend, hop', hcalls⟩ := Outcome.andThen_eq_some hop
  obtain ⟨-, hchain, rfl⟩ := endCurrentChain_spec hend
  rw [hcalls, hchain, ← List.append_assoc]
  have hsound := h.endChain
  split_ifs at hop' ⊢ with hone
  · obtain rfl := Option.some.inj hop'
    rw [List.append_nil]
    exact hsound
  · obtain ⟨hmem, hlength⟩ := not_or.1 hone
    rw [not_not] at hmem
    refine Sound.ranges ?_ hop'
    refine ⟨?_, h.nodup.erase id, fun x hx => h.le_maxID x (List.mem_of_mem_erase hx), fun x creator st hx => ?_,
      fun x hx => ?_, List.nodup_nil, List.nil_subset _⟩
    · intro (hnil : g.liveNodes.erase id = [])
      have herase := List.length_erase_of_mem hmem
      rw [hnil, List.length_nil] at herase
      have hpos := List.length_pos_of_mem hmem
      omega
    · exact hsound.created x creator st ((List.mem_append.1 hx).resolve_right (by simp))
    · obtain hx | hx := List.mem_append.1 hx
      · exact (hsound.deleted x hx).imp_right fun hno hin => hno (List.mem_of_mem_erase hin)
      · obtain rfl : x = id := by simpa using hx
        exact ⟨h.le_maxID x hmem, h.nodup.not_mem_erase⟩

/-- The node that is created is a new one, unless `maxID` wraps. -/
theorem handleCreateOp_eq (hop : (handleCreateOp F g).2 = some g') :
    ∃ creator, creator ∈ g.liveNodes ∧
      computeRanges F { g with currentChain := [], maxID := g.maxID + 1, liveNodes := g.liveNodes ++ [g.maxID + 1] } =
        some g' ∧
      (handleCreateOp F g).1 = chainCalls g.currentChain ++ [.doCreateNode (g.maxID + 1) creator g'.getState] := by
  unfold handleCreateOp at hop ⊢
  obtain ⟨g₁, hend, hop', hcalls⟩ := Outcome.andThen_eq_some hop
  obtain ⟨-, hchain, rfl⟩ := endCurrentChain_spec hend
  rw [hcalls, hchain]
  dsimp only at hop' ⊢
  cases hlive : g.liveNodes with
  | nil =>
    rw [hlive] at hop'
    cases hop'
  | cons creator l =>
    rw [hlive] at hop'
    dsimp only at hop' ⊢
    cases hranges : computeRanges F
        { g with currentChain := [], maxID := g.maxID + 1, liveNodes := creator :: l ++ [g.maxID + 1] } with
    | none =>
      rw [hranges] at hop'
      cases hop'
    | some x =>
      rw [hranges] at hop'
      obtain rfl := Option.some.inj hop'
      obtain ⟨a, b, c, d, rfl⟩ := computeRanges_eq hranges
      exact ⟨creator, List.mem_cons_self, rfl, rfl⟩

private theorem handleCreateOp_of {creator : UInt32} {l : List UInt32} (hchain : g.currentChain = [])
    (hlive : g.liveNodes = creator :: l)
    (hranges : computeRanges F { g with
      currentChain := [], maxID := g.maxID + 1, liveNodes := creator :: l ++ [g.maxID + 1] } = some g') :
    handleCreateOp F g = ([.doCreateNode g'.maxID creator g'.getState], some g') := by
  have hend := endCurrentChain_of_nil hchain
  rw [handleCreateOp, Outcome.andThen_of (congrArg Prod.snd hend), hend]
  dsimp only
  rw [hlive]
  dsimp only
  rw [hranges]
  rfl

private theorem handleDeleteOp_of {id : UInt32} (hchain : g.currentChain = [])
    (hlive : ¬ (id ∉ g.liveNodes ∨ g.liveNodes.length = 1)) :
    handleDeleteOp F g id =
      ([.doDeleteNode id], computeRanges F { g with currentChain := [], liveNodes := g.liveNodes.erase id }) := by
  have hend := endCurrentChain_of_nil hchain
  rw [handleDeleteOp, Outcome.andThen_of (congrArg Prod.snd hend), hend]
  dsimp only
  rw [if_neg hlive]
  rfl

private theorem toNat_add_one {k : UInt32} (h : k.toNat + 1 < 2 ^ 32) : (k + 1).toNat = k.toNat + 1 := by
  rw [UInt32.toNat_add]
  exact Nat.mod_eq_of_lt h

private theorem add_one_of_wrap {k : UInt32} (h : ¬ k.toNat + 1 < 2 ^ 32) : k + 1 = 0 := by
  refine UInt32.toNat_inj.1 ?_
  have hlt := k.toNat_lt
  have hmax : k.toNat = 2 ^ 32 - 1 := by omega
  rw [UInt32.toNat_add, hmax]
  rfl

/-- The new id is used for the first time exactly if `maxID` does not wrap. -/
theorem Sound.handleCreateOp_iff (h : Sound g calls) (hop : (handleCreateOp F g).2 = some g') :
    Sound g' (calls ++ (handleCreateOp F g).1) ↔ g.maxID.toNat + 1 < 2 ^ 32 := by
  obtain ⟨creator, hcreator, hranges, hcalls⟩ := handleCreateOp_eq hop
  obtain ⟨a, b, c, d, hg'⟩ := computeRanges_eq hranges
  constructor
  · intro hsound
    by_contra hwrap
    have hzero := add_one_of_wrap hwrap
    have hle := hsound.le_maxID creator (by rw [hg']; exact List.mem_append_left _ hcreator)
    have hnodup := hsound.nodup
    rw [hg'] at hle hnodup
    dsimp only at hle hnodup
    rw [hzero] at hle hnodup
    have hcreator' : creator = 0 := UInt32.toNat_inj.1 (Nat.le_zero.1 (UInt32.le_iff_toNat_le.1 hle))
    rw [List.nodup_append] at hnodup
    exact hnodup.2.2 creator hcreator 0 (List.mem_singleton_self 0) hcreator'
  · intro hfits
    have hnext := toNat_add_one hfits
    have hle (id : UInt32) (hid : id ≤ g.maxID) : id ≤ g.maxID + 1 := by
      rw [UInt32.le_iff_toNat_le, hnext]
      exact Nat.le_succ_of_le (UInt32.le_iff_toNat_le.1 hid)
    have hne (id : UInt32) (hid : id ≤ g.maxID) : id ≠ g.maxID + 1 := by
      rintro rfl
      have hself := UInt32.le_iff_toNat_le.1 hid
      rw [hnext] at hself
      exact Nat.not_succ_le_self _ hself
    have hend := h.endChain
    rw [hcalls, ← List.append_assoc]
    refine Sound.ranges ?_ hranges
    refine ⟨by simp, ?_, fun x hx => ?_, fun x y st hx => ?_, fun x hx => ?_, List.nodup_nil, List.nil_subset _⟩
    · refine List.nodup_append.2 ⟨h.nodup, List.nodup_singleton _, fun x hx y hy => ?_⟩
      rw [List.mem_singleton.1 hy]
      exact hne x (h.le_maxID x hx)
    · obtain hx | hx := List.mem_append.1 hx
      · exact hle x (h.le_maxID x hx)
      · rw [List.mem_singleton.1 hx]
        exact UInt32.le_refl _
    · obtain hx | hx := List.mem_append.1 hx
      · exact hle x (hend.created x y st hx)
      · obtain ⟨rfl, -, -⟩ : x = g.maxID + 1 ∧ y = creator ∧ st = g'.getState := by simpa using hx
        exact UInt32.le_refl _
    · have hx' := (List.mem_append.1 hx).resolve_right (by simp)
      obtain ⟨hid, hno⟩ := hend.deleted x hx'
      refine ⟨hle x hid, fun hin => ?_⟩
      obtain hin | hin := List.mem_append.1 hin
      · exact hno hin
      · exact hne x hid (List.mem_singleton.1 hin)

/-! ### One operation -/

/-- What `RunOnce` can do. -/
inductive Operation (F : Floats P) (g : RandomInstructionGenerator P) : Outcome P → Prop
  | create (code : g.opcode g.draw.seed = .create) : Operation F g (handleCreateOp F g.draw)
  | delete {id : UInt32} (code : g.opcode g.draw.seed = .delete) (mem : id ∈ g.liveNodes) :
    Operation F g (handleDeleteOp F g.draw.draw id)
  | chain {id : UInt32} (code : g.opcode g.draw.seed = .chain)
    (node : g.liveNodes[g.chainIndex g.draw.seed]? = some id) : Operation F g (handleChainOp g.draw id)
  | nothing (create : g.opcode g.draw.seed ≠ .create) (ends : ¬ g.EndsChain) : Operation F g ([], some g.draw)
  | throws (nil : g.liveNodes = []) : Operation F g ([], none)

private theorem eq_nil_of_getElem?_mod {l : List UInt32} {k : ℕ} (h : l[k % l.length]? = none) : l = [] := by
  have hle := List.getElem?_eq_none_iff.1 h
  by_contra hl
  exact absurd (Nat.mod_lt k (List.length_pos_iff.2 hl)) (Nat.not_lt.2 hle)

theorem operation (F : Floats P) (g : RandomInstructionGenerator P) : Operation F g (runOnce F g) := by
  unfold runOnce
  cases hcode : g.opcode g.draw.seed with
  | create => exact .create hcode
  | delete =>
    dsimp only
    cases hnode : g.liveNodes[g.deleteIndex g.draw.draw.seed]? with
    | none => exact .throws (eq_nil_of_getElem?_mod hnode)
    | some id => exact .delete hcode (List.mem_of_getElem? hnode)
  | chain =>
    dsimp only
    cases hnode : g.liveNodes[g.chainIndex g.draw.seed]? with
    | none => exact .throws (eq_nil_of_getElem?_mod hnode)
    | some id => exact .chain hcode hnode
  | noop | unknown =>
    refine .nothing (by rw [hcode]; decide) fun hends => ?_
    rw [EndsChain, hcode] at hends
    obtain hends | hends | ⟨hends, -⟩ := hends <;> cases hends

/-- The calls of an operation: those for the chain, if the operation ends it, with its nodes distinct and alive, and at
most one
more. -/
structure CallsOf (g : RandomInstructionGenerator P) (calls : List (Call P)) : Prop where
  nodup : g.currentChain.Nodup
  subset : g.currentChain ⊆ g.liveNodes
  calls : ∃ l tail, calls = chainCalls l ++ tail ∧ (g.EndsChain → l = g.currentChain) ∧ (¬ g.EndsChain → l = []) ∧
    (tail = [] ∨ (∃ id creator st, tail = [.doCreateNode id creator st]) ∨ ∃ id, tail = [.doDeleteNode id])

private theorem Sound.callsOf_of_not_endsChain (h : Sound g calls) (hends : ¬ g.EndsChain) : CallsOf g [] :=
  ⟨h.chain_nodup, h.chain_subset, [], [], rfl, fun hends' => absurd hends' hends, fun _ => rfl, .inl rfl⟩

private theorem Sound.callsOf_of_endsChain (h : Sound g calls) (hends : g.EndsChain) {tail : List (Call P)}
    (htail : tail = [] ∨ (∃ id creator st, tail = [.doCreateNode id creator st]) ∨ ∃ id, tail = [.doDeleteNode id]) :
    CallsOf g (chainCalls g.currentChain ++ tail) :=
  ⟨h.chain_nodup, h.chain_subset, g.currentChain, tail, rfl, fun _ => rfl, fun hno => absurd hends hno, htail⟩

private theorem Sound.callsOf (h : Sound g calls) (hfits : g.ChainFits) : CallsOf g (runOnce F g).1 := by
  have hop := operation F g
  generalize runOnce F g = x at hop ⊢
  cases hop with
  | create hcode =>
    have hends : g.EndsChain := .inl hcode
    have hend : g.draw.endCurrentChain = (chainCalls g.currentChain, some { g.draw with currentChain := [] }) :=
      endCurrentChain_of_le (g := g.draw) (hfits hends)
    rw [handleCreateOp, Outcome.andThen_of (congrArg Prod.snd hend), hend]
    dsimp only
    refine h.callsOf_of_endsChain hends ?_
    cases g.draw.liveNodes with
    | nil => exact .inl rfl
    | cons creator l =>
      dsimp only
      cases computeRanges F
          { g.draw with currentChain := [], maxID := g.draw.maxID + 1, liveNodes := creator :: l ++ [g.draw.maxID + 1] } with
      | none => exact .inl rfl
      | some g' => exact .inr (.inl ⟨_, _, _, rfl⟩)
  | @delete id hcode hmem =>
    have hends : g.EndsChain := .inr (.inl hcode)
    have hend : g.draw.draw.endCurrentChain = (chainCalls g.currentChain, some { g.draw.draw with currentChain := [] }) :=
      endCurrentChain_of_le (g := g.draw.draw) (hfits hends)
    rw [handleDeleteOp, Outcome.andThen_of (congrArg Prod.snd hend), hend]
    dsimp only
    refine h.callsOf_of_endsChain hends ?_
    split_ifs
    · exact .inl rfl
    · exact .inr (.inr ⟨id, rfl⟩)
  | @chain id hcode hnode =>
    have hmem : id ∈ g.liveNodes := List.mem_of_getElem? hnode
    rw [handleChainOp]
    by_cases hchain : id ∈ g.currentChain
    · have hends : g.EndsChain := .inr (.inr ⟨hcode, id, hchain, hnode⟩)
      have hend : g.draw.endCurrentChain = (chainCalls g.currentChain, some { g.draw with currentChain := [] }) :=
        endCurrentChain_of_le (g := g.draw) (hfits hends)
      have hcalls := h.callsOf_of_endsChain hends (.inl rfl)
      rw [if_pos (show id ∈ g.draw.currentChain from hchain), hend]
      rwa [List.append_nil] at hcalls
    · have hends : ¬ g.EndsChain := by
        rintro (hcreate | hdelete | ⟨-, id', hchain', hnode'⟩)
        · exact absurd (hcode.symm.trans hcreate) (by decide)
        · exact absurd (hcode.symm.trans hdelete) (by decide)
        · obtain rfl := Option.some.inj (hnode.symm.trans hnode')
          exact hchain hchain'
      rw [if_neg (show id ∉ g.draw.currentChain from hchain), if_neg (not_not_intro (show id ∈ g.draw.liveNodes from hmem))]
      exact h.callsOf_of_not_endsChain hends
  | nothing hcreate hends => exact h.callsOf_of_not_endsChain hends
  | throws hnil => exact absurd hnil h.nonempty

/-- The program does not come to the consumer of a chain that does not fit. -/
theorem consumer_notMem_runOnce (h : Sound g calls) (hends : g.EndsChain) (hlong : 2 ^ 31 < g.currentChain.length) :
    (runOnce F g).2 = none ∧ ∀ id src, .doConsumerNode id src ∉ (runOnce F g).1 := by
  have hlost (g₁ : RandomInstructionGenerator P) (hchain : g₁.currentChain = g.currentChain) :
      g₁.endCurrentChain.2 = none ∧ ∀ id src, .doConsumerNode id src ∉ g₁.endCurrentChain.1 := by
    obtain ⟨hnone, hcalls⟩ := endCurrentChain_of_lt (g := g₁) (by rwa [hchain])
    refine ⟨hnone, fun id src hmem => ?_⟩
    obtain ⟨_, _, hcall⟩ | ⟨_, _, _, hcall⟩ := hcalls _ hmem <;> cases hcall
  have hop := operation F g
  generalize runOnce F g = x at hop ⊢
  cases hop with
  | create =>
    obtain ⟨hnone, hcalls⟩ := hlost g.draw rfl
    rw [handleCreateOp, Outcome.andThen_none hnone]
    exact ⟨hnone, hcalls⟩
  | delete =>
    obtain ⟨hnone, hcalls⟩ := hlost g.draw.draw rfl
    rw [handleDeleteOp, Outcome.andThen_none hnone]
    exact ⟨hnone, hcalls⟩
  | @chain id hcode hnode =>
    have hchain : id ∈ g.currentChain := by
      obtain hcreate | hdelete | ⟨-, id', hchain', hnode'⟩ := hends
      · exact absurd (hcode.symm.trans hcreate) (by decide)
      · exact absurd (hcode.symm.trans hdelete) (by decide)
      · rwa [Option.some.inj (hnode.symm.trans hnode')]
    rw [handleChainOp, if_pos (show id ∈ g.draw.currentChain from hchain)]
    exact hlost g.draw rfl
  | nothing _ hno => exact absurd hends hno
  | throws hnil => exact absurd hnil h.nonempty

/-- The calls are those of a proper chain exactly if the chain fits. -/
theorem Sound.callsOf_iff (h : Sound g calls) : CallsOf g (runOnce F g).1 ↔ g.ChainFits := by
  refine ⟨fun hcalls hends => ?_, h.callsOf⟩
  by_contra hlong
  obtain ⟨l, tail, hcalls, hchain, -, -⟩ := hcalls.calls
  obtain ⟨id, src, hmem⟩ := exists_consumer_mem_chainCalls (P := P) (l := g.currentChain) (by omega)
  refine (consumer_notMem_runOnce (F := F) h hends (Nat.lt_of_not_le hlong)).2 id src ?_
  rw [hcalls, hchain hends]
  exact List.mem_append_left _ hmem

/-- The next state is sound exactly if the operation that leads there meets the condition. -/
theorem Sound.runOnce_iff (h : Sound g calls) (hop : (runOnce F g).2 = some g') :
    Sound g' (calls ++ (runOnce F g).1) ↔ Meets g := by
  have hfits : g.ChainFits := by
    intro hends
    by_contra hlong
    rw [(consumer_notMem_runOnce h hends (Nat.lt_of_not_le hlong)).1] at hop
    cases hop
  have hother (hcode : g.opcode g.draw.seed ≠ .create) (hsound : Sound g' (calls ++ (runOnce F g).1)) :
      Sound g' (calls ++ (runOnce F g).1) ↔ Meets g :=
    ⟨fun _ => ⟨fun hcreate => absurd hcreate hcode, hfits⟩, fun _ => hsound⟩
  have hcases := operation F g
  generalize runOnce F g = x at hcases hop hother ⊢
  cases hcases with
  | create hcode =>
    rw [h.draw.handleCreateOp_iff hop]
    exact ⟨fun hid => ⟨fun _ => hid, hfits⟩, fun hmeets => hmeets.id hcode⟩
  | delete hcode => exact hother (by rw [hcode]; decide) (h.draw.draw.afterDeleteOp hop)
  | chain hcode => exact hother (by rw [hcode]; decide) (h.draw.afterChainOp hop)
  | nothing hcode =>
    obtain rfl := Option.some.inj hop
    refine hother hcode ?_
    rw [List.append_nil]
    exact h.draw
  | throws => cases hop

/-! ### Runs -/

/-- The numbers that `RunOnce` may draw next are not zero. -/
structure Draws (g : RandomInstructionGenerator P) : Prop where
  first : 0 < g.draw.seed.toNat
  second : 0 < g.draw.draw.seed.toNat

/-- What `RunOnce` selects, it selects by differences that do not wrap, and it finds the node. -/
structure Selects (g : RandomInstructionGenerator P) : Prop where
  opcode : g.opcode g.draw.seed = g.exactOpcode g.draw.seed.toNat
  chain_sub : g.opcode g.draw.seed = .chain →
    ((g.draw.seed - g.createRange.toUInt64 - g.deleteRange.toUInt64 - 1).toNat : ℤ) =
      (g.draw.seed.toNat : ℤ) - g.createRange.toNat - g.deleteRange.toNat - 1
  delete_sub : ((g.draw.draw.seed - 1).toNat : ℤ) = (g.draw.draw.seed.toNat : ℤ) - 1
  chain_index : g.chainIndex g.draw.seed < g.liveNodes.length
  delete_index : g.deleteIndex g.draw.draw.seed < g.liveNodes.length

private theorem Sound.selects (h : Sound g calls) (hdraws : Draws g) : Selects g := by
  have hpos := List.length_pos_iff.2 h.nonempty
  have hsecond := hdraws.second
  refine ⟨(opcode_eq g _).1, toNat_chainIndex hdraws.first, ?_, Nat.mod_lt _ hpos, Nat.mod_lt _ hpos⟩
  rw [toNat_sub_one hsecond]
  omega

/-- What an operation does beside the lists and the ranges, once its numbers are drawn. -/
structure Moves (g g' : RandomInstructionGenerator P) : Prop where
  feed : g'.feed = g.feed
  seed : g'.seed = g.seed
  createProb : g'.probabilityToCreateNode = g.probabilityToCreateNode
  deleteProb : g'.probabilityToDeleteNode = g.probabilityToDeleteNode
  maxID : g'.maxID = g.maxID ∨ g'.maxID = g.maxID + 1

private theorem Moves.ranges {g₁ : RandomInstructionGenerator P} (h : Moves g g₁) (hc : computeRanges F g₁ = some g') :
    Moves g g' := by
  obtain ⟨a, b, c, d, rfl⟩ := computeRanges_eq hc
  exact ⟨h.feed, h.seed, h.createProb, h.deleteProb, h.maxID⟩

theorem moves_handleCreateOp (hop : (handleCreateOp F g).2 = some g') : Moves g g' := by
  obtain ⟨-, -, hranges, -⟩ := handleCreateOp_eq hop
  refine Moves.ranges ?_ hranges
  exact ⟨rfl, rfl, rfl, rfl, .inr rfl⟩

private theorem moves_endCurrentChain (hop : g.endCurrentChain.2 = some g') : Moves g g' := by
  obtain ⟨-, -, rfl⟩ := endCurrentChain_spec hop
  exact ⟨rfl, rfl, rfl, rfl, .inl rfl⟩

private theorem moves_handleDeleteOp {id : UInt32} (hop : (handleDeleteOp F g id).2 = some g') : Moves g g' := by
  unfold handleDeleteOp at hop
  obtain ⟨g₁, hend, hop', -⟩ := Outcome.andThen_eq_some hop
  have hmoves := moves_endCurrentChain hend
  split_ifs at hop'
  · rwa [← Option.some.inj hop']
  · refine Moves.ranges ?_ hop'
    exact ⟨hmoves.feed, hmoves.seed, hmoves.createProb, hmoves.deleteProb, hmoves.maxID⟩

private theorem moves_handleChainOp {id : UInt32} (hop : (handleChainOp g id).2 = some g') : Moves g g' := by
  unfold handleChainOp at hop
  split_ifs at hop
  · exact moves_endCurrentChain hop
  all_goals
    obtain rfl := Option.some.inj hop
    exact ⟨rfl, rfl, rfl, rfl, .inl rfl⟩

/-- An operation draws one or two numbers. -/
theorem moves_runOnce (hop : (runOnce F g).2 = some g') : Moves g.draw g' ∨ Moves g.draw.draw g' := by
  have hcases := operation F g
  generalize runOnce F g = x at hcases hop
  cases hcases with
  | create => exact .inl (moves_handleCreateOp hop)
  | delete => exact .inr (moves_handleDeleteOp hop)
  | chain => exact .inl (moves_handleChainOp hop)
  | nothing =>
    obtain rfl := Option.some.inj hop
    exact .inl ⟨rfl, rfl, rfl, rfl, .inl rfl⟩
  | throws => cases hop

/-- The register of the generator over a run. -/
theorem runOnce_seed (hop : (runOnce F g).2 = some g') :
    g'.feed = g.feed ∧ ∃ k, g'.seed = (getResult g.feed)^[k] g.draw.seed := by
  obtain hmoves | hmoves := moves_runOnce hop
  · exact ⟨hmoves.feed, 0, hmoves.seed⟩
  · exact ⟨hmoves.feed, 1, hmoves.seed⟩

/-- A generator with the nodes up to `numNodes`. -/
theorem sound_create {feed seed : UInt64} {debugLevel : Int32} {createProb destroyProb : P} {numNodes : UInt32}
    (h1 : 1 ≤ numNodes.toNat) (hg : create F (.initial feed seed debugLevel createProb destroyProb numNodes) = some g) :
    Sound g [] := by
  refine Sound.ranges ?_ hg
  have hlt := numNodes.toNat_lt
  have hvalue (i : ℕ) (hi : i < numNodes.toNat) : (UInt32.ofNat i).toNat = i := UInt32.toNat_ofNat_of_lt' (lt_trans hi hlt)
  refine ⟨?_, ?_, fun id hid => ?_, fun _ _ _ h => (by cases h), fun _ h => (by cases h), List.nodup_nil, List.nil_subset _⟩
  · intro hnil
    have hlength := congrArg List.length hnil
    simp only [State.initial, List.length_map, List.length_range, List.length_nil] at hlength
    omega
  · refine List.Nodup.map_on (fun i hi j hj hij => ?_) List.nodup_range
    rw [← hvalue i (List.mem_range.1 hi), ← hvalue j (List.mem_range.1 hj), hij]
  · obtain ⟨i, hi, rfl⟩ := List.mem_map.1 hid
    have hi' := List.mem_range.1 hi
    rw [UInt32.le_iff_toNat_le, hvalue i hi']
    exact hi'.le

/-- Over each run whose operations meet the condition the state is sound, and the next operation selects without wrapping and
finds its node; it makes a proper chain exactly if the chain fits, and the state after it is sound exactly if it meets the
condition. -/
theorem generator_sound {feed seed : UInt64} {debugLevel : Int32} {createProb destroyProb : P} {numNodes : UInt32}
    (h1 : 1 ≤ numNodes.toNat) (hdraws : ∀ k, 0 < ((getResult feed)^[k + 1] seed).toNat)
    {s : RandomInstructionGenerator P × List (Call P)}
    (hreach : (generatorMachine F (.initial feed seed debugLevel createProb destroyProb numNodes)).ReachableBy
      (fun s _ => Meets s.1) s) :
    Sound s.1 s.2 ∧ Selects s.1 ∧ (CallsOf s.1 (runOnce F s.1).1 ↔ ChainFits s.1) ∧
      ∀ g', (runOnce F s.1).2 = some g' → (Sound g' (s.2 ++ (runOnce F s.1).1) ↔ Meets s.1) := by
  have hinv : Sound s.1 s.2 ∧ s.1.feed = feed ∧ ∃ k, s.1.seed = (getResult feed)^[k] seed := by
    refine Machine.ReachableBy.invariant
      (I := fun s => Sound s.1 s.2 ∧ s.1.feed = feed ∧ ∃ k, s.1.seed = (getResult feed)^[k] seed) ?_ ?_ hreach
    · rintro ⟨g, calls⟩ ⟨hcreate, rfl⟩
      obtain ⟨_, _, _, _, hg⟩ := computeRanges_eq hcreate
      exact ⟨sound_create h1 hcreate, congrArg _ hg, 0, congrArg _ hg⟩
    · rintro ⟨g, calls⟩ l t ⟨hsound, hfeed, k, hseed⟩ hmeets hnext
      obtain ⟨g', hg', rfl⟩ := Option.map_eq_some_iff.1 hnext
      obtain ⟨hfeed', k', hseed'⟩ := runOnce_seed hg'
      refine ⟨(hsound.runOnce_iff hg').2 hmeets, hfeed'.trans hfeed, k' + (k + 1), ?_⟩
      dsimp only at hfeed hseed ⊢
      rw [hseed', hfeed, Function.iterate_add_apply, Function.iterate_succ_apply', ← hseed, ← hfeed]
      rfl
  obtain ⟨hsound, hfeed, k, hseed⟩ := hinv
  have hdraws' : Draws s.1 := by
    have hfirst := hdraws k
    have hsecond := hdraws (k + 1)
    rw [Function.iterate_succ_apply', ← hseed, ← hfeed] at hfirst
    rw [Function.iterate_succ_apply', Function.iterate_succ_apply', ← hseed, ← hfeed] at hsecond
    exact ⟨hfirst, hsecond⟩
  exact ⟨hsound, hsound.selects hdraws', hsound.callsOf_iff, fun g' hg' => hsound.runOnce_iff hg'⟩

/-! ### A run without an end -/

/-- `MaxVal`: the feed and `pow(2, order) - 1` are rounded to `double`, and `2 ^ 64` becomes 0.  The order is taken
exactly; the
quotient of two rounded logarithms is above it at some of the powers of 2, and below it directly above others. -/
def maxVal (feed : UInt64) : UInt64 := UInt64.ofNat (roundTo 53 (2 ^ Nat.clog 2 (roundTo 53 feed.toNat) - 1))

/-- Probabilities in eighths. -/
def eighths : Floats ℕ where
  maxVal := maxVal
  range maxVal p := UInt32.ofNat ((2 * (maxVal.toNat * p) + 8) / 16)
  toFloat p := p
  toFloat_toFloat _ := rfl

/-- The register takes the values 13, 23 and 26 in turn. -/
def turning (seed : UInt64) (maxID : UInt32) (liveNodes : List UInt32) : RandomInstructionGenerator ℕ :=
  { feed := 17
    seed := seed
    probabilityToCreateNode := 6
    probabilityToDeleteNode := 1
    maxID := maxID
    createRange := 23
    deleteRange := 4
    chainRange := 4
    noopRange := 0
    currentChain := []
    liveNodes := liveNodes
    debugLevel := 0 }

variable {seed : UInt64} {a m : UInt32} {l : List UInt32}

private theorem computeRanges_turning (seed : UInt64) (m : UInt32) {l : List UInt32} (hl : l.length = 1 ∨ l.length = 2)
    (b c d e : UInt32) :
    computeRanges eighths { turning seed m l with createRange := b, deleteRange := c, chainRange := d, noopRange := e } =
      some (turning seed m l) := by
  have hmax : eighths.maxVal 17 = 31 := by decide +kernel
  have hcreate : eighths.range 31 6 = 23 := by decide +kernel
  have hdelete : eighths.range 31 1 = 4 := by decide +kernel
  unfold computeRanges turning
  dsimp only
  rw [hmax, hcreate, hdelete]
  obtain hl | hl := hl
  · rw [hl]
    exact if_neg (by decide +kernel)
  · rw [hl]
    exact if_neg (by decide +kernel)

private theorem opcode_turning (p : UInt64) : (turning seed m l).opcode p = (turning 0 0 []).opcode p := rfl

private theorem draw_turning (m : UInt32) (l : List UInt32) : (turning 13 m l).draw = turning 23 m l := by
  have hresult : getResult 17 13 = 23 := by decide +kernel
  rw [draw, ← hresult]
  rfl

private theorem opcode_turning_create (m : UInt32) (l : List UInt32) :
    (turning 13 m l).opcode (turning 13 m l).draw.seed = .create := by
  have hclosed : (turning 0 0 []).opcode 23 = .create := by decide +kernel
  rw [draw_turning]
  exact hclosed

private theorem runOnce_turning_create (a m : UInt32) : runOnce eighths (turning 13 m [a]) =
    ([.doCreateNode (m + 1) a (turning 23 (m + 1) [a, m + 1]).getState], some (turning 23 (m + 1) [a, m + 1])) := by
  have hranges := computeRanges_turning 23 (m + 1) (l := [a, m + 1]) (.inr rfl) 23 4 4 0
  rw [runOnce, opcode_turning_create, draw_turning]
  exact handleCreateOp_of (g := turning 23 m [a]) rfl rfl hranges

private theorem runOnce_turning_delete (a m : UInt32) : runOnce eighths (turning 23 m [a, m]) =
    ([.doDeleteNode a], some (turning 13 m [m])) := by
  have hfirst : (turning 23 m [a, m]).draw = turning 26 m [a, m] := by
    have hresult : getResult 17 23 = 26 := by decide +kernel
    rw [draw, ← hresult]
    rfl
  have hsecond : (turning 26 m [a, m]).draw = turning 13 m [a, m] := by
    have hresult : getResult 17 26 = 13 := by decide +kernel
    rw [draw, ← hresult]
    rfl
  have hcode : (turning 0 0 []).opcode (turning 26 m [a, m]).seed = .delete := by
    have hclosed : (turning 0 0 []).opcode 26 = .delete := by decide +kernel
    exact hclosed
  have hnode : (turning 23 m [a, m]).liveNodes[(turning 23 m [a, m]).deleteIndex (turning 13 m [a, m]).seed]? = some a := by
    have hindex : (13 - 1 : UInt64).toNat % 2 = 0 := by decide +kernel
    have hclosed : [a, m][(13 - 1 : UInt64).toNat % 2]? = some a := by rw [hindex]; rfl
    exact hclosed
  have hranges := computeRanges_turning 13 m (l := [m]) (.inl rfl) 23 4 4 0
  rw [runOnce, hfirst, hsecond, opcode_turning, hcode]
  dsimp only
  rw [hnode]
  dsimp only
  have hlive : (turning 13 m [a, m]).liveNodes = [a, m] := rfl
  rw [handleDeleteOp_of rfl (by simp [hlive]), hlive, List.erase_cons_head]
  exact congrArg (Prod.mk _) hranges

/-- The state with one node, from which the register turns. -/
def turningState : State ℕ := .initial 17 13 0 6 1 1

private theorem create_turning : create eighths turningState = some (turning 13 1 [0]) :=
  computeRanges_turning 13 1 (l := [0]) (.inl rfl) 0 0 0 0

private theorem getResult_turning (k : ℕ) : (getResult 17)^[k + 1] 13 = 13 ∨ (getResult 17)^[k + 1] 13 = 23 ∨
    (getResult 17)^[k + 1] 13 = 26 := by
  induction k with
  | zero => exact .inr (.inl (by decide +kernel))
  | succ k ih =>
    rw [Function.iterate_succ_apply']
    obtain h | h | h := ih
    · rw [h]
      exact .inr (.inl (by decide +kernel))
    · rw [h]
      exact .inr (.inr (by decide +kernel))
    · rw [h]
      exact .inl (by decide +kernel)

/-- The ids go through all values. -/
theorem reachable_turning (k : ℕ) : ∃ a calls, (generatorMachine eighths turningState).Reachable
    (turning 13 (UInt32.ofNat (k + 1)) [a], calls) := by
  induction k with
  | zero => exact ⟨0, [], .init ⟨create_turning, rfl⟩⟩
  | succ k ih =>
    obtain ⟨a, calls, hreach⟩ := ih
    have hcreate := runOnce_turning_create a (UInt32.ofNat (k + 1))
    have hdelete := runOnce_turning_delete a (UInt32.ofNat (k + 1) + 1)
    have hnext : UInt32.ofNat (k + 1) + 1 = UInt32.ofNat (k + 1 + 1) := (UInt32.ofNat_add (k + 1) 1).symm
    rw [← hnext]
    exact ⟨_, _, .step (.step hreach trivial (next_of_runOnce hcreate)) trivial (next_of_runOnce hdelete)⟩

/-- After so many operations an id is used again. -/
theorem not_forall_generator_sound : ¬ ∀ (feed seed : UInt64) (createProb destroyProb : ℕ) (numNodes : UInt32),
    1 ≤ numNodes.toNat →
    (eighths.range (eighths.maxVal feed) createProb).toNat + (eighths.range (eighths.maxVal feed) destroyProb).toNat <
      (eighths.maxVal feed).toNat →
    (∀ k, 1 ≤ ((getResult feed)^[k + 1] seed).toNat ∧ (getResult feed)^[k + 1] seed ≤ eighths.maxVal feed) →
    ∀ s, (generatorMachine eighths (.initial feed seed 0 createProb destroyProb numNodes)).Reachable s → Sound s.1 s.2 := by
  intro h
  have houtputs (k : ℕ) : 1 ≤ ((getResult 17)^[k + 1] 13).toNat ∧ (getResult 17)^[k + 1] 13 ≤ eighths.maxVal 17 := by
    obtain hk | hk | hk := getResult_turning k
    all_goals
      rw [hk]
      decide +kernel
  have hsound := h 17 13 6 1 1 (by decide) (by decide +kernel) houtputs
  obtain ⟨a, calls, hreach⟩ := reachable_turning (2 ^ 32 - 2)
  have hlast := hsound _ hreach
  have hcreate := runOnce_turning_create a (UInt32.ofNat (2 ^ 32 - 2 + 1))
  have hafter := hsound _ (.step hreach trivial (next_of_runOnce hcreate))
  have hiff := hlast.runOnce_iff (congrArg Prod.snd hcreate)
  rw [hcreate] at hiff
  have hmeets := hiff.1 hafter
  have hfits := hmeets.id (opcode_turning_create _ _)
  have hmax : (UInt32.ofNat (2 ^ 32 - 2 + 1)).toNat + 1 = 2 ^ 32 := by decide +kernel
  exact hfits.ne hmax

/-- The run of three operations. -/
theorem generator_sound_three : ∃ s : RandomInstructionGenerator ℕ × List (Call ℕ),
    s.2.length = 3 ∧ Sound s.1 s.2 ∧ Selects s.1 ∧ CallsOf s.1 (runOnce eighths s.1).1 := by
  have houtputs (k : ℕ) : 0 < ((getResult 17)^[k + 1] 13).toNat := by
    obtain hk | hk | hk := getResult_turning k
    all_goals
      rw [hk]
      decide +kernel
  have hstart : (generatorMachine eighths turningState).ReachableBy (fun s _ => Meets s.1) (turning 13 1 [0], []) :=
    .init ⟨create_turning, rfl⟩
  have hone := Machine.ReachableBy.step (l := ()) hstart ⟨fun _ => by decide, fun _ => by decide⟩
    (next_of_runOnce (runOnce_turning_create 0 1))
  have htwo := Machine.ReachableBy.step (l := ()) hone ⟨fun _ => by decide, fun _ => by decide⟩
    (next_of_runOnce (runOnce_turning_delete 0 2))
  have hthree := Machine.ReachableBy.step (l := ()) htwo ⟨fun _ => by decide, fun _ => by decide⟩
    (next_of_runOnce (runOnce_turning_create 2 2))
  obtain ⟨hsound, hselects, hcalls, -⟩ := generator_sound (by decide) houtputs hthree
  exact ⟨_, rfl, hsound, hselects, hcalls.2 fun _ => by decide⟩

end RandomInstructionGenerator

end ProcessNetwork
