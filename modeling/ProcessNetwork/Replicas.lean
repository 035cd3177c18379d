import ProcessNetwork.JSONRoundTrip
import ProcessNetwork.GeneratorState
import ProcessNetwork.RandomInstructionNode

/-!
# Replicas of a generator

A node is made from the state that another node takes while it creates the node.  The state has neither the ranges nor the
chain; they are what the generator would make of them, so that the replica is the generator itself.  The integers of
the state
are written and read as JSON, where those from `2 ^ 63` on are lost.
-/

namespace ProcessNetwork

open JSON (Int64 NulFree Reads Throughout ThroughoutElements ThroughoutMembers cString)

/-- The integers and the doubles are kept, by the conversions and by the text. -/
structure LongDoubles.Exact {N P : Type} (D : LongDoubles N P) : Prop where
  toInteger_ofInteger : ∀ i, Int64 i → D.toInteger (D.numbers.ofInteger i) = i
  text_ofInteger : ∀ i, Int64 i → D.format.text (D.numbers.ofInteger i) = decimal i
  toDouble_double : ∀ p, D.toDouble (D.double p) = p
  reads_double : ∀ p, Reads D.numbers D.format false (.number (D.double p))

/-! ### The state as JSON -/

namespace RINState

variable {N P : Type} {D : LongDoubles N P}

/-- The members are written in the order of their keys. -/
theorem toVariant_eq (r : RINState P) : r.toVariant D = .object
    [(bytes "iterations", .number (D.numbers.ofInteger r.iterations.toNat)),
      (bytes "kernelnames", .array (r.kernelnames.map .string)),
      (bytes "nodeID", .number (D.numbers.ofInteger r.nodeID.toNat)),
      (bytes "state", .object
        [(bytes "createProb", .number (D.double r.state.createProb)),
          (bytes "debugLevel", .number (D.numbers.ofInteger r.state.debugLevel.toInt)),
          (bytes "destroyProb", .number (D.double r.state.destroyProb)),
          (bytes "feed", .number (D.numbers.ofInteger r.state.feed.toNat)),
          (bytes "liveNodes", .array (r.state.liveNodes.map fun id => .number (D.numbers.ofInteger id.toNat))),
          (bytes "maxID", .number (D.numbers.ofInteger r.state.maxID.toNat)),
          (bytes "seed", .number (D.numbers.ofInteger r.state.seed.toNat))])] := rfl

/-- The state with the names of the kernels as C strings. -/
def clean (r : RINState P) : RINState P := { r with kernelnames := r.kernelnames.map cString }

private theorem insertString_cString (s : List Byte) : JSON.insertString (cString s) = JSON.insertString s := by
  unfold JSON.insertString
  rw [JSON.cString_of_nulFree (JSON.nulFree_cString s)]

private theorem elementsToJSON_cString (level : ℕ) (first : Bool) (l : List (List Byte)) :
    JSON.elementsToJSON D.format false level first ((l.map cString).map .string) =
      JSON.elementsToJSON D.format false level first (l.map .string) := by
  induction l generalizing first with
  | nil => rfl
  | cons s l ih =>
    simp only [List.map_cons]
    rw [JSON.elementsToJSON, JSON.elementsToJSON, JSON.variantToJSON, JSON.variantToJSON, insertString_cString, ih]

/-- The text shows the names only up to their zeros. -/
theorem toJSON_clean (r : RINState P) : r.clean.toJSON D = r.toJSON D := by
  unfold toJSON JSON.toJSON
  rw [toVariant_eq, toVariant_eq]
  simp only [JSON.variantToJSON, JSON.membersToJSON, clean, elementsToJSON_cString]

/-- A number that is an integer or a double. -/
def Kept (D : LongDoubles N P) (n : N) : Prop := (∃ i, Int64 i ∧ n = D.numbers.ofInteger i) ∨ ∃ p, n = D.double p

private theorem reads_of_kept (hD : D.Exact) (n : N) (hn : Kept D n) : Reads D.numbers D.format false (.number n) := by
  obtain ⟨i, hi, rfl⟩ | ⟨p, rfl⟩ := hn
  · exact JSON.reads_integer hi (hD.text_ofInteger i hi)
  · exact hD.reads_double p

private theorem int64_of_lt {n : ℕ} (h : n < 2 ^ 63) : Int64 (n : ℤ) :=
  ⟨le_trans (by decide) (Int.natCast_nonneg n), by exact_mod_cast h⟩

private theorem int64_toNat (k : UInt32) : Int64 (k.toNat : ℤ) := int64_of_lt (lt_trans k.toNat_lt (by decide))

private theorem int64_toInt (k : Int32) : Int64 k.toInt :=
  ⟨le_trans (by decide) k.minValue_le_toInt, lt_of_le_of_lt k.toInt_le (by decide)⟩

/-- What the text keeps: the register fits in a signed integer. -/
def Fits (r : RINState P) : Prop := r.state.feed.toNat < 2 ^ 63 ∧ r.state.seed.toNat < 2 ^ 63

private theorem proper_toVariant (r : RINState P) : (r.toVariant D).Proper := by
  rw [toVariant_eq]
  have hnames : Variant.ProperElements (r.kernelnames.map (Variant.string (N := N))) := by
    rw [Variant.properElements_iff]
    intro v hv
    obtain ⟨s, -, rfl⟩ := List.mem_map.1 hv
    simp [Variant.Proper]
  have hlive : Variant.ProperElements (r.state.liveNodes.map fun id => Variant.number (D.numbers.ofInteger id.toNat)) := by
    rw [Variant.properElements_iff]
    intro v hv
    obtain ⟨id, -, rfl⟩ := List.mem_map.1 hv
    simp [Variant.Proper]
  have hstate : [bytes "createProb", bytes "debugLevel", bytes "destroyProb", bytes "feed", bytes "liveNodes", bytes "maxID",
      bytes "seed"].Pairwise (· < ·) := by decide
  have hkeys : [bytes "iterations", bytes "kernelnames", bytes "nodeID", bytes "state"].Pairwise (· < ·) := by decide
  simp only [Variant.Proper, Variant.ProperMembers, hnames, hlive, and_true, true_and]
  exact ⟨hkeys, hstate⟩

private theorem throughout_toVariant (r : RINState P) (hfits : r.Fits) :
    Throughout (Kept D) NulFree (r.clean.toVariant D) := by
  rw [toVariant_eq]
  have hnames : ThroughoutElements (Kept D) NulFree ((r.kernelnames.map cString).map Variant.string) := by
    rw [JSON.throughoutElements_iff]
    intro v hv
    obtain ⟨s, hs, rfl⟩ := List.mem_map.1 hv
    obtain ⟨t, -, rfl⟩ := List.mem_map.1 hs
    rw [Throughout]
    exact JSON.nulFree_cString t
  have hlive : ThroughoutElements (Kept D) NulFree
      (r.state.liveNodes.map fun id => Variant.number (D.numbers.ofInteger id.toNat)) := by
    rw [JSON.throughoutElements_iff]
    intro v hv
    obtain ⟨id, -, rfl⟩ := List.mem_map.1 hv
    rw [Throughout]
    exact .inl ⟨_, int64_toNat id, rfl⟩
  simp only [clean, Throughout, ThroughoutMembers, hnames, hlive, and_true, true_and]
  refine ⟨?_, .inl ⟨_, int64_toNat _, rfl⟩, ?_, ?_, .inl ⟨_, int64_toNat _, rfl⟩, ?_, ?_, .inr ⟨_, rfl⟩, ?_,
    .inl ⟨_, int64_toInt _, rfl⟩, ?_, .inr ⟨_, rfl⟩, ?_, .inl ⟨_, int64_of_lt hfits.1, rfl⟩, ?_, ?_,
    .inl ⟨_, int64_toNat _, rfl⟩, ?_, .inl ⟨_, int64_of_lt hfits.2, rfl⟩⟩
  all_goals
    unfold NulFree
    decide

private theorem variantFromJSON_of_fits (hD : D.Exact) (r : RINState P) (hfits : r.Fits) :
    JSON.variantFromJSON D.numbers (r.toJSON D) = .ok (r.clean.toVariant D) := by
  rw [← toJSON_clean]
  exact JSON.variantFromJSON_of_throughout (reads_of_kept hD) (.inr (by rw [toVariant_eq]; rfl)) (proper_toVariant _)
    (throughout_toVariant r hfits)

private theorem mapM_asString (l : List (List Byte)) : (l.map Variant.string).mapM (Variant.asString D.format) = some l := by
  induction l with
  | nil => rfl
  | cons s l ih =>
    rw [List.map_cons, List.mapM_cons, ih]
    rfl

private theorem ofInt_toNat_uint32 (k : UInt32) : UInt32.ofInt k.toNat = k := by
  have hmod : (k.toNat : ℤ) % 2 ^ 32 = k.toNat := Int.emod_eq_of_lt (Int.natCast_nonneg _) (by exact_mod_cast k.toNat_lt)
  rw [UInt32.ofInt, hmod, Int.toNat_natCast, UInt32.ofNat_toNat]

private theorem ofInt_toNat_uint64 (k : UInt64) : UInt64.ofInt k.toNat = k := by
  have hmod : (k.toNat : ℤ) % 2 ^ 64 = k.toNat := Int.emod_eq_of_lt (Int.natCast_nonneg _) (by exact_mod_cast k.toNat_lt)
  rw [UInt64.ofInt, hmod, Int.toNat_natCast, UInt64.ofNat_toNat]

section Parse

variable [Zero N] [One N]

private theorem asInteger_ofInteger (hD : D.Exact) {i : ℤ} (hi : Int64 i) :
    asInteger D (.number (D.numbers.ofInteger i)) = some i := congrArg some (hD.toInteger_ofInteger i hi)

private theorem asUnsigned_toNat (hD : D.Exact) (k : UInt32) :
    asUnsigned D (.number (D.numbers.ofInteger k.toNat)) = some k := by
  rw [asUnsigned, asInteger_ofInteger hD (int64_toNat k)]
  exact congrArg some (ofInt_toNat_uint32 k)

private theorem asLFSR_toNat (hD : D.Exact) {k : UInt64} (hk : k.toNat < 2 ^ 63) :
    asLFSR D (.number (D.numbers.ofInteger k.toNat)) = some k := by
  rw [asLFSR, asInteger_ofInteger hD (int64_of_lt hk)]
  exact congrArg some (ofInt_toNat_uint64 k)

private theorem asDouble_double (hD : D.Exact) (p : P) : asDouble D (.number (D.double p)) = some p :=
  congrArg some (hD.toDouble_double p)

private theorem mapM_asUnsigned (hD : D.Exact) (l : List UInt32) :
    (l.map fun id => Variant.number (D.numbers.ofInteger id.toNat)).mapM (asUnsigned D) = some l := by
  induction l with
  | nil => rfl
  | cons k l ih =>
    rw [List.map_cons, List.mapM_cons, asUnsigned_toNat hD, ih]
    rfl

/-- The state of the generator is read back. -/
theorem stateOf_toVariant (hD : D.Exact) (r : RINState P) (hfits : r.Fits) : stateOf D (r.toVariant D) = some r.state := by
  let s := (r.toVariant D).member (bytes "state")
  have hobject : ((r.toVariant D).member (bytes "state")).getType = .objectType := rfl
  have hfeed : asLFSR D (s.member (bytes "feed")) = some r.state.feed := asLFSR_toNat hD hfits.1
  have hseed : asLFSR D (s.member (bytes "seed")) = some r.state.seed := asLFSR_toNat hD hfits.2
  have hmaxID : asUnsigned D (s.member (bytes "maxID")) = some r.state.maxID := asUnsigned_toNat hD _
  have hcreate : asDouble D (s.member (bytes "createProb")) = some r.state.createProb := asDouble_double hD _
  have hdestroy : asDouble D (s.member (bytes "destroyProb")) = some r.state.destroyProb := asDouble_double hD _
  have hdebug : asInteger D (s.member (bytes "debugLevel")) = some r.state.debugLevel.toInt :=
    asInteger_ofInteger hD (int64_toInt _)
  have hlive : (s.member (bytes "liveNodes")).asArray =
    some (r.state.liveNodes.map fun id => .number (D.numbers.ofInteger id.toNat)) := rfl
  rw [stateOf, if_pos hobject, readState, hfeed, hseed, hmaxID, hcreate, hdestroy, hdebug, hlive]
  simp only [Option.bind_eq_bind, Option.bind_some, mapM_asUnsigned hD, Int32.ofInt_toInt]

private theorem ofVariant_toVariant (hD : D.Exact) (r : RINState P) (hfits : r.Fits) :
    ofVariant D (r.toVariant D) = some r := by
  have hid : ((r.toVariant D).constMember (bytes "nodeID")).bind (asUnsigned D) = some r.nodeID := asUnsigned_toNat hD _
  have hiterations : asUnsigned D ((r.toVariant D).member (bytes "iterations")) = some r.iterations := asUnsigned_toNat hD _
  have hnames : constArray ((r.toVariant D).member (bytes "kernelnames")) = some (r.kernelnames.map .string) := rfl
  rw [ofVariant, hid, hiterations, hnames, stateOf_toVariant hD r hfits]
  simp only [Option.bind_eq_bind, Option.bind_some, mapM_asString]

/-- A state whose register fits is read back from its text; of the names of the kernels the C strings are. -/
theorem ofJSON_toJSON (hD : D.Exact) (r : RINState P) (hfits : r.Fits) : ofJSON D (r.toJSON D) = some r.clean := by
  rw [ofJSON, variantFromJSON_of_fits hD r hfits]
  exact ofVariant_toVariant hD r.clean hfits

end Parse

end RINState

/-! ### The replica of a generator -/

namespace RandomInstructionGenerator

variable {P : Type} {F : Floats P} {g g' : RandomInstructionGenerator P} {state : State P} {past : List (Call P)}
  {id creator : UInt32} {st : State P}

/-- The calls of so many operations, while the program runs. -/
def operations (F : Floats P) : ℕ → RandomInstructionGenerator P → List (List (Call P))
  | 0, _ => []
  | n + 1, g => (runOnce F g).1 ::
    match (runOnce F g).2 with
    | none => []
    | some g' => operations F n g'

private theorem operations_succ (n : ℕ) (h : (runOnce F g).2 = some g') :
    operations F (n + 1) g = (runOnce F g).1 :: operations F n g' := by
  rw [operations, h]

/-- The probabilities are `float`. -/
def Rounded (F : Floats P) (g : RandomInstructionGenerator P) : Prop :=
  F.toFloat g.probabilityToCreateNode = g.probabilityToCreateNode ∧
    F.toFloat g.probabilityToDeleteNode = g.probabilityToDeleteNode

private theorem Rounded.runOnce (h : Rounded F g) (hop : (runOnce F g).2 = some g') : Rounded F g' := by
  unfold Rounded
  obtain hmoves | hmoves := moves_runOnce hop
  · rw [hmoves.createProb, hmoves.deleteProb]
    exact h
  · rw [hmoves.createProb, hmoves.deleteProb]
    exact h

/-- What holds in a run of the generator that is made from the state. -/
theorem rounded_of_reachable {s : RandomInstructionGenerator P × List (Call P)}
    (h : (generatorMachine F state).Reachable s) : Rounded F s.1 ∧ s.1.feed = state.feed := by
  refine Machine.ReachableBy.invariant (I := fun s => Rounded F s.1 ∧ s.1.feed = state.feed) ?_ ?_ h
  · rintro ⟨g, past⟩ ⟨hcreate, -⟩
    obtain ⟨a, b, c, d, hg⟩ := computeRanges_eq hcreate
    dsimp only at hg ⊢
    rw [hg]
    exact ⟨⟨F.toFloat_toFloat _, F.toFloat_toFloat _⟩, rfl⟩
  · rintro ⟨g, past⟩ l t ⟨hrounded, hfeed⟩ - hnext
    obtain ⟨g', hg', rfl⟩ := Option.map_eq_some_iff.1 hnext
    exact ⟨hrounded.runOnce hg', (runOnce_seed hg').1.trans hfeed⟩

private theorem create_notMem_handleChainOp {x : UInt32} : .doCreateNode id creator st ∉ (handleChainOp g x).1 := by
  unfold handleChainOp
  split_ifs
  · exact (endCurrentChain_notMem g).1 id creator st
  · simp
  · simp

private theorem create_notMem_handleDeleteOp {x : UInt32} : .doCreateNode id creator st ∉ (handleDeleteOp F g x).1 := by
  have hchain := (endCurrentChain_notMem g).1 id creator st
  unfold handleDeleteOp
  cases hend : g.endCurrentChain.2 with
  | none => rwa [Outcome.andThen_none hend]
  | some g₁ =>
    rw [Outcome.andThen_of hend]
    intro hmem
    refine hchain ((List.mem_append.1 hmem).resolve_right ?_)
    split_ifs <;> simp

/-- The state that `DoCreateNode` takes is that of the generator after the operation. -/
theorem handleCreateOp_of_mem (hmem : .doCreateNode id creator st ∈ (handleCreateOp F g).1) :
    ∃ g', (handleCreateOp F g).2 = some g' ∧ st = g'.getState ∧ id = g.maxID + 1 ∧
      computeRanges F { g with currentChain := [], maxID := g.maxID + 1, liveNodes := g.liveNodes ++ [g.maxID + 1] } =
        some g' := by
  have hchain := (endCurrentChain_notMem g).1 id creator st
  cases hop : (handleCreateOp F g).2 with
  | none =>
    unfold handleCreateOp at hmem hop
    cases hend : g.endCurrentChain.2 with
    | none =>
      rw [Outcome.andThen_none hend] at hmem
      exact absurd hmem hchain
    | some g₁ =>
      rw [Outcome.andThen_of hend] at hmem hop
      have hcalls := (List.mem_append.1 hmem).resolve_left hchain
      dsimp only at hcalls hop
      cases hlive : g₁.liveNodes with
      | nil =>
        rw [hlive] at hcalls
        cases hcalls
      | cons x l =>
        rw [hlive] at hcalls hop
        dsimp only at hcalls hop
        cases hranges : computeRanges F { g₁ with maxID := g₁.maxID + 1, liveNodes := x :: l ++ [g₁.maxID + 1] } with
        | none =>
          rw [hranges] at hcalls
          cases hcalls
        | some g' =>
          rw [hranges] at hop
          cases hop
  | some g' =>
    obtain ⟨x, -, hranges, hcalls⟩ := handleCreateOp_eq hop
    rw [hcalls] at hmem
    have hcall := (List.mem_append.1 hmem).resolve_left ((chainCalls_spec g.currentChain).1 id creator st)
    obtain ⟨rfl, -, rfl⟩ := Call.doCreateNode.inj (List.mem_singleton.1 hcall)
    exact ⟨g', rfl, rfl, rfl, hranges⟩

private theorem runOnce_of_mem (hmem : .doCreateNode id creator st ∈ (runOnce F g).1) :
    runOnce F g = handleCreateOp F g.draw := by
  have hop := operation F g
  generalize runOnce F g = x at hop hmem ⊢
  cases hop with
  | create => rfl
  | delete => exact absurd hmem create_notMem_handleDeleteOp
  | chain => exact absurd hmem create_notMem_handleChainOp
  | nothing | throws => cases hmem

/-- The ranges before do not matter. -/
theorem create_of_computeRanges (hrounded : Rounded F g) (hchain : g.currentChain = [])
    (hranges : computeRanges F g = some g') :
    create F g'.getState = some g' := by
  obtain ⟨a, b, c, d, rfl⟩ := computeRanges_eq hranges
  rw [← hranges]
  unfold create getState
  dsimp only
  rw [hrounded.1, hrounded.2, ← hchain]
  rfl

/-- The generator that is made from the state of a creation is the generator after the creation. -/
theorem create_of_doCreateNode (hrounded : Rounded F g) (hmem : .doCreateNode id creator st ∈ (runOnce F g).1) :
    ∃ g', (runOnce F g).2 = some g' ∧ create F st = some g' ∧ st = g'.getState ∧ id = g'.maxID := by
  have hop := runOnce_of_mem hmem
  rw [hop] at hmem ⊢
  obtain ⟨g', hg', rfl, rfl, hranges⟩ := handleCreateOp_of_mem hmem
  refine ⟨g', hg', create_of_computeRanges ?_ rfl hranges, rfl, ?_⟩
  · exact hrounded
  · obtain ⟨a, b, c, d, rfl⟩ := computeRanges_eq hranges
    rfl

private theorem getResult_lt {feed : UInt64} (hfeed : feed.toNat < 2 ^ 63) (seed : UInt64) :
    (getResult feed seed).toNat < 2 ^ 63 := by
  have hshift : (seed >>> 1).toNat < 2 ^ 63 := by
    have hlt := seed.toNat_lt
    rw [UInt64.toNat_shiftRight]
    show seed.toNat >>> 1 < 2 ^ 63
    rw [Nat.shiftRight_eq_div_pow]
    omega
  unfold getResult
  split_ifs
  · rw [UInt64.toNat_xor]
    exact Nat.xor_lt_two_pow hshift hfeed
  · exact hshift

/-- The seed of a creation was just drawn. -/
theorem fits_of_doCreateNode (hfeed : g.feed.toNat < 2 ^ 63) (hmem : .doCreateNode id creator st ∈ (runOnce F g).1)
    (hop : (runOnce F g).2 = some g') : g'.feed.toNat < 2 ^ 63 ∧ g'.seed.toNat < 2 ^ 63 := by
  rw [runOnce_of_mem hmem] at hop
  have hmoves := moves_handleCreateOp hop
  rw [hmoves.feed, hmoves.seed]
  exact ⟨hfeed, getResult_lt hfeed g.seed⟩

/-- The second generator makes the same calls as the first one, whatever the number of operations. -/
def InLockstep (F : Floats P) (g h : RandomInstructionGenerator P) : Prop := ∀ m, operations F m h = operations F m g

private theorem maxID_of_runOnce (hop : (runOnce F g).2 = some g') : g'.maxID = g.maxID ∨ g'.maxID = g.maxID + 1 := by
  obtain hmoves | hmoves := moves_runOnce hop
  · exact hmoves.maxID
  · exact hmoves.maxID

/-- The ids of the nodes that are created count on from `maxID`. -/
theorem id_of_mem_operations (n : ℕ) {calls : List (Call P)} (hcalls : calls ∈ operations F n g)
    (hmem : .doCreateNode id creator st ∈ calls) : ∃ j, 1 ≤ j ∧ j ≤ n ∧ id = g.maxID + UInt32.ofNat j := by
  induction n generalizing g with
  | zero => cases hcalls
  | succ n ih =>
    obtain rfl | hcalls := List.mem_cons.1 hcalls
    · rw [runOnce_of_mem hmem] at hmem
      obtain ⟨-, -, -, hid, -⟩ := handleCreateOp_of_mem hmem
      exact ⟨1, le_refl 1, by omega, hid⟩
    · cases hop : (runOnce F g).2 with
      | none =>
        rw [hop] at hcalls
        cases hcalls
      | some g' =>
        rw [hop] at hcalls
        obtain ⟨j, h1, hn, rfl⟩ := ih hcalls
        obtain hmax | hmax := maxID_of_runOnce hop
        · exact ⟨j, h1, by omega, by rw [hmax]⟩
        · refine ⟨j + 1, by omega, by omega, ?_⟩
          rw [hmax, UInt32.ofNat_add, UInt32.add_assoc, UInt32.add_comm 1]
          rfl

/-- No id comes again within so few operations. -/
theorem maxID_notMem_operations {n : ℕ} (hn : n < 2 ^ 32) {calls : List (Call P)} (hcalls : calls ∈ operations F n g) :
    .doCreateNode g.maxID creator st ∉ calls := by
  intro hmem
  obtain ⟨j, h1, hj, hid⟩ := id_of_mem_operations n hcalls hmem
  have hzero : UInt32.ofNat j = 0 := by simpa using hid.symm
  have hvalue := UInt32.toNat_ofNat_of_lt' (lt_of_le_of_lt hj hn)
  rw [hzero] at hvalue
  exact absurd hvalue (by simpa using (by omega : 0 ≠ j))

end RandomInstructionGenerator

/-! ### `Process` -/

namespace RandomInstructionNode

open RandomInstructionGenerator

variable {P : Type} {F : Floats P} {nd : RandomInstructionNode P}

/-- No operation of the node creates or deletes the node itself. -/
def Undisturbed (myID : UInt32) (calls : List (Call P)) : Prop :=
  (∀ creator st, .doCreateNode myID creator st ∉ calls) ∧ .doDeleteNode myID ∉ calls

private theorem Undisturbed.any {myID : UInt32} {calls : List (Call P)} (h : Undisturbed myID calls) :
    calls.any (createsID myID) = false ∧ calls.any (deletesID myID) = false := by
  constructor
  · rw [List.any_eq_false]
    rintro (⟨id, creator, st⟩ | id | ⟨id, dst⟩ | ⟨id, src, dst⟩ | ⟨id, src⟩) hcall
    · intro hid
      obtain rfl : id = myID := of_decide_eq_true hid
      exact h.1 creator st hcall
    all_goals exact Bool.false_ne_true
  · rw [List.any_eq_false]
    rintro (⟨id, creator, st⟩ | id | ⟨id, dst⟩ | ⟨id, src, dst⟩ | ⟨id, src⟩) hcall
    · exact Bool.false_ne_true
    · intro hid
      obtain rfl : id = myID := of_decide_eq_true hid
      exact h.2 hcall
    all_goals exact Bool.false_ne_true

/-- A node that is neither created nor deleted makes all operations. -/
theorem process_eq (hdie : nd.die = false) (n : ℕ) (h : ∀ calls ∈ operations F n nd.generator, Undisturbed nd.myID calls) :
    (nd.process F n).map Prod.fst = operations F n nd.generator := by
  induction n generalizing nd with
  | zero => rfl
  | succ n ih =>
    rw [operations, List.forall_mem_cons] at h
    rw [process, hdie, if_neg Bool.false_ne_true, operations, List.map_cons]
    obtain ⟨hcreates, hdeletes⟩ := h.1.any
    cases hop : (runOnce F nd.generator).2 with
    | none => rfl
    | some g' =>
      rw [hop] at h
      dsimp only at h ⊢
      rw [hcreates, hdeletes, if_neg Bool.false_ne_true]
      exact congrArg _ (ih rfl h.2)

private theorem exists_of_mem_created {iterations : UInt32} {calls : List (Call P)} {r : RINState P}
    (hr : r ∈ nd.created iterations calls) :
    ∃ id st, .doCreateNode id nd.myID st ∈ calls ∧ r = ⟨id, iterations, nd.kernelnames, st⟩ := by
  obtain ⟨call, hcall, hsome⟩ := List.mem_filterMap.1 hr
  cases call with
  | doCreateNode id creator st =>
    dsimp only at hsome
    split_ifs at hsome with hid
    subst hid
    exact ⟨id, st, hcall, (Option.some.inj hsome).symm⟩
  | doDeleteNode | doProducerNode | doTransmuterNode | doConsumerNode => cases hsome

/-- The generator of a node that is created is in lockstep with the generator that created it.  So is that of the node
made from
the JSON text, if the feed fits in a signed integer; unless it is deleted, that node makes as many operations as the
node that
created it. -/
theorem replica_in_lockstep {N : Type} [Zero N] [One N] {D : LongDoubles N P} (hD : D.Exact) {initial : State P}
    {past : List (Call P)} (hreach : (generatorMachine F initial).Reachable (nd.generator, past)) {n : ℕ}
    (hn : n + 1 < 2 ^ 32) {r : RINState P} (hr : r ∈ nd.created (UInt32.ofNat n) (runOnce F nd.generator).1) :
    ∃ g', (runOnce F nd.generator).2 = some g' ∧ (∃ h, create F r.state = some h ∧ InLockstep F g' h) ∧
      (initial.feed.toNat < 2 ^ 63 → ∃ r' replica ops, RINState.ofJSON D (r.toJSON D) = some r' ∧ new F r' = some replica ∧
        InLockstep F g' replica.generator ∧ run F r' = some ops ∧
        ((∀ calls ∈ operations F n g', .doDeleteNode r.nodeID ∉ calls) → ops.map Prod.fst = operations F n g')) ∧
      (nd.die = false → (∀ calls ∈ operations F (n + 1) nd.generator, Undisturbed nd.myID calls) →
        (nd.process F (n + 1)).map Prod.fst = (runOnce F nd.generator).1 :: operations F n g') := by
  obtain ⟨id, st, hmem, rfl⟩ := exists_of_mem_created hr
  obtain ⟨hrounded, hfeed⟩ := rounded_of_reachable hreach
  obtain ⟨g', hop, hcreate, rfl, rfl⟩ := create_of_doCreateNode hrounded hmem
  refine ⟨g', hop, ⟨g', hcreate, fun _ => rfl⟩, fun hfits => ?_, fun hdie hquiet => ?_⟩
  · have hfits' := fits_of_doCreateNode (by rwa [hfeed]) hmem hop
    have hread := RINState.ofJSON_toJSON hD ⟨g'.maxID, UInt32.ofNat n, nd.kernelnames, g'.getState⟩ hfits'
    let replica : RandomInstructionNode P := ⟨g', g'.maxID, false, nd.kernelnames.map cString⟩
    have hnew : new F (RINState.clean ⟨g'.maxID, UInt32.ofNat n, nd.kernelnames, g'.getState⟩) = some replica :=
      congrArg (Option.map _) hcreate
    have htoNat : (UInt32.ofNat n).toNat = n := UInt32.toNat_ofNat_of_lt' (Nat.lt_of_succ_lt hn)
    refine ⟨_, replica, replica.process F n, hread, hnew, fun _ => rfl, ?_, fun hdelete => ?_⟩
    · rw [run, hnew, RINState.clean, htoNat]
      rfl
    · refine process_eq rfl n fun calls hcalls => ⟨fun creator st => ?_, hdelete calls hcalls⟩
      exact maxID_notMem_operations (Nat.lt_of_succ_lt hn) hcalls
  · rw [process_eq hdie (n + 1) hquiet, operations_succ n hop]

/-! ### Concrete numbers -/

/-- Some probabilities: `0`, `2 ^ (-32)`, `1 / 8` and `3 / 4`. -/
inductive Chance
  | zero
  | rarely
  | eighth
  | often
  deriving DecidableEq

/-- A `long double` that is an integer or one of the probabilities. -/
inductive Number
  | integer (i : ℤ)
  | fraction (p : Chance)
  deriving DecidableEq

instance : Zero Number := ⟨.integer 0⟩

instance : One Number := ⟨.integer 1⟩

namespace Chance

/-- The numerator and the denominator. -/
def ratio : Chance → ℕ × ℕ
  | .zero => (0, 1)
  | .rarely => (1, 2 ^ 32)
  | .eighth => (1, 8)
  | .often => (3, 4)

def text : Chance → List Byte
  | .zero => bytes "0"
  | .rarely => bytes "2.3283064365386962890625e-10"
  | .eighth => bytes "0.125"
  | .often => bytes "0.75"

/-- What `strtod` reads; white space behind the number does not matter. -/
def read (s : List Byte) : Number :=
  let digits := s.takeWhile fun c => c ≠ 32 ∧ c ≠ 10
  if digits = text .rarely then .fraction .rarely
  else if digits = text .eighth then .fraction .eighth
  else if digits = text .often then .fraction .often
  else .integer 0

end Chance

namespace Number

def text : Number → List Byte
  | .integer i => decimal i
  | .fraction p => p.text

private theorem text_ne_nil (n : Number) : n.text ≠ [] := by
  cases n with
  | integer i => exact decimal_ne_nil i
  | fraction p => cases p <;> decide

end Number

/-- The conversions, which keep these numbers. -/
def numberDoubles : LongDoubles Number Chance where
  format := ⟨Number.text, fun s => (readDecimal s).map Number.integer, Number.text_ne_nil⟩
  numbers := ⟨Number.integer, Chance.read⟩
  double
    | .zero => .integer 0
    | p => .fraction p
  toDouble
    | .integer _ => .zero
    | .fraction p => p
  toInteger
    | .integer i => i
    | .fraction _ => 0
  hundredth := .zero

/-- The ranges for these probabilities.  A feed that is rounded to `2 ^ 63` has the order 63 and the largest value `2 ^
63`; one
that is rounded to more has the largest value 0, and no generator is made. -/
def chances : Floats Chance where
  maxVal := maxVal
  range maxVal p := UInt32.ofNat ((2 * (maxVal.toNat * p.ratio.1) + p.ratio.2) / (2 * p.ratio.2))
  toFloat p := p
  toFloat_toFloat _ := rfl

private theorem takeWhile_append_white {s ws : List Byte} (hs : s.all fun c => c ≠ 32 ∧ c ≠ 10) (hws : JSON.White ws) :
    (s ++ ws).takeWhile (fun c => c ≠ 32 ∧ c ≠ 10) = s := by
  rw [List.takeWhile_append_of_pos (List.all_eq_true.1 hs)]
  cases ws with
  | nil => exact List.append_nil s
  | cons c ws =>
    have hc := hws c List.mem_cons_self
    rw [List.takeWhile_cons_of_neg, List.append_nil]
    rw [decide_eq_true_iff]
    obtain rfl | rfl := hc
    · exact fun h => h.1 rfl
    · exact fun h => h.2 rfl

private theorem read_append {p : Chance} (hp : p ≠ .zero) {ws : List Byte} (hws : JSON.White ws) :
    Chance.read (p.text ++ ws) = .fraction p := by
  cases p with
  | zero => exact absurd rfl hp
  | rarely | eighth | often =>
    unfold Chance.read
    dsimp only
    rw [takeWhile_append_white (by decide) hws]
    decide

/-- The text of a fraction is read as the fraction. -/
theorem reads_fraction {p : Chance} (hp : p ≠ .zero) :
    Reads numberDoubles.numbers numberDoubles.format false (.number (.fraction p)) := by
  intro level state bc m stack d b b' hstate _ hadd
  have hscan (ws : List Byte) (hws : JSON.White ws) : Chance.read (ws ++ p.text.reverse).reverse = .fraction p := by
    rw [List.reverse_append, List.reverse_reverse]
    exact read_append hp fun c hc => hws c (List.mem_reverse.1 hc)
  cases p with
  | zero => exact absurd rfl hp
  | rarely =>
    refine ⟨(⟨.e3, bc, .float, false, false, true, 0, m :: stack, (Chance.text .rarely).reverse⟩, d + 1, b), ?_,
      ⟨.e3, .float, _, b, rfl, by simp, _, hscan, hadd⟩⟩
    rw [JSON.variantToJSON] <;> first | simp | rcases hstate with rfl | rfl <;> rfl
  | eighth =>
    refine ⟨(⟨.fr, bc, .float, false, false, true, 0, m :: stack, (Chance.text .eighth).reverse⟩, d + 1, b), ?_,
      ⟨.fr, .float, _, b, rfl, by simp, _, hscan, hadd⟩⟩
    rw [JSON.variantToJSON] <;> first | simp | rcases hstate with rfl | rfl <;> rfl
  | often =>
    refine ⟨(⟨.fr, bc, .float, false, false, true, 0, m :: stack, (Chance.text .often).reverse⟩, d + 1, b), ?_,
      ⟨.fr, .float, _, b, rfl, by simp, _, hscan, hadd⟩⟩
    rw [JSON.variantToJSON] <;> first | simp | rcases hstate with rfl | rfl <;> rfl

private theorem exact_numberDoubles : numberDoubles.Exact where
  toInteger_ofInteger _ _ := rfl
  text_ofInteger _ _ := rfl
  toDouble_double p := by cases p <;> rfl
  reads_double p := by
    cases p with
    | zero => exact JSON.reads_integer (F := numberDoubles.numbers) (i := 0) ⟨by decide, by decide⟩ rfl
    | rarely | eighth | often => exact reads_fraction (by decide)

/-- A state from which the first operation creates a node. -/
def creating (feed seed : UInt64) (createProb destroyProb : Chance) : State Chance :=
  .initial feed seed 0 createProb destroyProb 1

example : create chances (creating (2 ^ 63 + 2048) 2 .rarely .zero) = none := by decide +kernel

/-- The generator made from the state, where there is one. -/
theorem exists_creating (initial : State Chance) (h : (create chances initial).isSome) :
    ∃ g, create chances initial = some g ∧ (generatorMachine chances initial).Reachable (g, []) := by
  obtain ⟨g, hg⟩ := Option.isSome_iff_exists.1 h
  exact ⟨g, hg, .init ⟨hg, rfl⟩⟩

/-- A feed from `2 ^ 63` on is read as `2 ^ 63 - 1`. -/
theorem not_forall_replica_in_lockstep : ¬ ∀ (initial : State Chance) (nd : RandomInstructionNode Chance)
    (past : List (Call Chance)) (n : ℕ) (r : RINState Chance), initial.liveNodes ≠ [] →
    (generatorMachine chances initial).Reachable (nd.generator, past) → n + 1 < 2 ^ 32 →
    r ∈ nd.created (UInt32.ofNat n) (runOnce chances nd.generator).1 →
    ∃ g' r' replica, (runOnce chances nd.generator).2 = some g' ∧
      RINState.ofJSON numberDoubles (r.toJSON numberDoubles) = some r' ∧ new chances r' = some replica ∧
      InLockstep chances g' replica.generator := by
  intro h
  obtain ⟨g, hg, hreach⟩ := exists_creating (creating (2 ^ 63 + 1024) 2 .rarely .zero) (by decide +kernel)
  let r : RINState Chance := ⟨2, 100, [], ⟨2 ^ 63 + 1024, 1, 2, 0, .rarely, .zero, [0, 2]⟩⟩
  let clamped : RINState Chance := ⟨2, 100, [], ⟨2 ^ 63 - 1, 1, 2, 0, .rarely, .zero, [0, 2]⟩⟩
  have hcalls : (create chances (creating (2 ^ 63 + 1024) 2 .rarely .zero)).map (fun g => (runOnce chances g).1) =
    some [.doCreateNode 2 0 r.state] := by decide +kernel
  have hread : RINState.ofJSON numberDoubles (r.toJSON numberDoubles) = some clamped := by decide +kernel
  have hdiffer : ((create chances (creating (2 ^ 63 + 1024) 2 .rarely .zero)).bind fun g => (runOnce chances g).2).map
      (operations chances 34) ≠ (create chances clamped.state).map (operations chances 34) := by decide +kernel
  rw [hg, Option.map_some, Option.some_inj] at hcalls
  obtain ⟨g', r', replica, hop, hr', hnew, hlockstep⟩ := h _ ⟨g, 0, false, []⟩ [] 100 r (by decide) hreach (by decide)
    (by rw [hcalls]; exact List.mem_singleton_self r)
  obtain rfl := Option.some.inj (hread.symm.trans hr')
  obtain ⟨k, hk, rfl⟩ := Option.map_eq_some_iff.1 hnew
  rw [hg, Option.bind_some, hop, hk] at hdiffer
  exact hdiffer (congrArg some (hlockstep 34).symm)

/-- The node that is created first, with four iterations left. -/
theorem replica_in_lockstep_first : ∃ g' r' replica,
    ((create chances (creating 17 13 .often .eighth)).bind fun g => (runOnce chances g).2) = some g' ∧
      RINState.ofJSON numberDoubles (RINState.toJSON numberDoubles
        ⟨2, 4, [], ⟨17, 23, 2, 0, .often, .eighth, [0, 2]⟩⟩) = some r' ∧
      new chances r' = some replica ∧ InLockstep chances g' replica.generator := by
  obtain ⟨g, hg, hreach⟩ := exists_creating (creating 17 13 .often .eighth) (by decide +kernel)
  let r : RINState Chance := ⟨2, 4, [], ⟨17, 23, 2, 0, .often, .eighth, [0, 2]⟩⟩
  have hcalls : (create chances (creating 17 13 .often .eighth)).map (fun g => (runOnce chances g).1) =
    some [.doCreateNode 2 0 r.state] := by decide +kernel
  rw [hg, Option.map_some, Option.some_inj] at hcalls
  let nd : RandomInstructionNode Chance := ⟨g, 0, false, []⟩
  have hr : r ∈ nd.created (UInt32.ofNat 4) (runOnce chances nd.generator).1 := by
    rw [hcalls]
    exact List.mem_singleton_self r
  obtain ⟨g', hop, -, hjson, -⟩ := replica_in_lockstep exact_numberDoubles hreach (n := 4) (by decide) hr
  obtain ⟨r', replica, -, hr', hnew, hlockstep, -⟩ := hjson (by decide)
  rw [hg, Option.bind_some]
  exact ⟨g', r', replica, hop, hr', hnew, hlockstep⟩

end RandomInstructionNode

end ProcessNetwork
