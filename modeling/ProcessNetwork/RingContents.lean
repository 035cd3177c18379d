import ProcessNetwork.ThresholdQueueBase

/-!
# What a ring buffer holds

`Holds q f` says that the ring buffer `q` holds the list `f c` on channel `c`: a cell of the channel, in the ring or in
the mirror, whose position is that of element `i` contains element `i`.  One condition thus covers the ring and its
mirror, and the region of a dequeue pointer, which may run from the ring into the mirror, is the front of the list
(`Holds.dequeueRegion_eq`).

The operations act on the lists as on queues (`Holds.enqueue`, `Holds.dequeue`), and moving to a larger buffer does not
change them (`Holds.grow`).
-/

namespace ProcessNetwork

namespace ThresholdQueueBase

variable {q : ThresholdQueueBase} {f g : Nat → List Byte}

/-- The `n` elements from `head` on end at `tail`. -/
def Spans (q : ThresholdQueueBase) (n : Nat) : Prop :=
  n ≤ q.queueLength ∧ q.tail = (q.head + n) % (2 * q.queueLength)

theorem count_of_spans {n : Nat} (h : q.Spans n) : q.count = n := ring_count h.1 q.head_lt h.2

/-- The cells a writer fills through an enqueue pointer of channel `c`. -/
def enqueueRegion (q : ThresholdQueueBase) (c n : Nat) : List Byte :=
  slice q.base (c * q.channelStride + q.tail % q.queueLength) n

/-- The cells a reader sees through a dequeue pointer of channel `c`. -/
def dequeueRegion (q : ThresholdQueueBase) (c n : Nat) : List Byte :=
  slice q.base (c * q.channelStride + q.head % q.queueLength) n

/-- The elements of channel `c`, read off the ring. -/
def contents (q : ThresholdQueueBase) (c : Nat) : List Byte :=
  (List.range q.count).map fun i => q.base (c * q.channelStride + (q.head + i) % q.queueLength)

/-- The ring buffer `q` holds `f c` on channel `c`. -/
structure Holds (q : ThresholdQueueBase) (f : Nat → List Byte) : Prop where
  spans : q.Spans q.count
  length_eq : ∀ c < q.numChannels, (f c).length = q.count
  cell : ∀ c < q.numChannels, ∀ a < q.channelStride, ∀ i < q.count,
    a % q.queueLength = (q.head + i) % q.queueLength → (f c)[i]? = some (q.base (c * q.channelStride + a))

theorem Holds.count_le (h : q.Holds f) : q.count ≤ q.queueLength := h.spans.1

private theorem Holds.tail_mod (h : q.Holds f) : q.tail % q.queueLength = (q.head + q.count) % q.queueLength := by
  conv => lhs; rw [h.spans.2]
  exact Nat.mod_mod_of_dvd _ (Dvd.intro_left 2 rfl)

private theorem queueLength_le_channelStride (q : ThresholdQueueBase) : q.queueLength ≤ q.channelStride := by
  have := q.one_le_maxThreshold
  unfold channelStride
  omega

private theorem channelStride_lt (q : ThresholdQueueBase) : q.channelStride < 2 * q.queueLength := by
  have := q.one_le_maxThreshold
  have := q.maxThreshold_le
  unfold channelStride
  omega

/-- A region of at most `maxThreshold` cells from a ring position on stays inside the channel. -/
theorem add_lt_channelStride (q : ThresholdQueueBase) (h : Nat) {n i : Nat} (hn : n ≤ q.maxThreshold) (hi : i < n) :
    h % q.queueLength + i < q.channelStride := by
  have := Nat.mod_lt h q.queueLength_pos
  have := q.maxThreshold_le
  unfold channelStride
  omega

/-- Such a region is in the block, unless the size of the block has wrapped. -/
theorem region_le_size (hfits : q.Fits) {c n : Nat} (hc : c < q.numChannels) (hn : n ≤ q.maxThreshold) (h : Nat) :
    c * q.channelStride + h % q.queueLength + n ≤ q.size := by
  rw [size, u64_of_lt hfits]
  have hregion : h % q.queueLength + n ≤ q.channelStride := by
    have := Nat.mod_lt h q.queueLength_pos
    unfold channelStride
    omega
  calc c * q.channelStride + h % q.queueLength + n = c * q.channelStride + (h % q.queueLength + n) := Nat.add_assoc _ _ _
    _ ≤ c * q.channelStride + q.channelStride := Nat.add_le_add_left hregion _
    _ = q.channelStride * (c + 1) := by rw [Nat.mul_succ, Nat.mul_comm]
    _ ≤ q.channelStride * q.numChannels := Nat.mul_le_mul_left _ hc

theorem Holds.contents_eq (h : q.Holds f) {c : Nat} (hc : c < q.numChannels) : q.contents c = f c := by
  apply List.ext_getElem?
  intro i
  by_cases hi : i < q.count
  · have hlt : (q.head + i) % q.queueLength < q.channelStride :=
      Nat.lt_of_lt_of_le (Nat.mod_lt _ q.queueLength_pos) q.queueLength_le_channelStride
    rw [h.cell c hc _ hlt i hi (Nat.mod_mod _ _)]
    simp [contents, hi]
  · have := h.length_eq c hc
    rw [List.getElem?_eq_none (by simp [contents]; omega), List.getElem?_eq_none (by omega)]

/-- What a reader sees through a dequeue pointer is the front of the list. -/
theorem Holds.dequeueRegion_eq (h : q.Holds f) {c n : Nat} (hc : c < q.numChannels) (hn : n ≤ q.count)
    (hm : n ≤ q.maxThreshold) : q.dequeueRegion c n = (f c).take n := by
  have hlen := h.length_eq c hc
  apply List.ext_getElem?
  intro i
  by_cases hi : i < n
  · have hlt := q.add_lt_channelStride q.head hm hi
    have hcell := h.cell c hc _ hlt i (by omega) (Nat.mod_add_mod _ _ _)
    rw [List.getElem?_take_of_lt hi, hcell]
    simp [dequeueRegion, slice, hi, Nat.add_assoc]
  · rw [List.getElem?_eq_none (by simp [dequeueRegion]; omega), List.getElem?_eq_none (by simp; omega)]

theorem Holds.congr (h : q.Holds f) (hfg : ∀ c < q.numChannels, f c = g c) : q.Holds g where
  spans := h.spans
  length_eq c hc := hfg c hc ▸ h.length_eq c hc
  cell c hc := hfg c hc ▸ h.cell c hc

/-! ### Writing into the free part -/

/-- A cell of the enqueue region is at the position of no element. -/
theorem Holds.free_cell (h : q.Holds f) {j i a : Nat} (hj : j < q.freespace) (hi : i < q.count)
    (ha : a % q.queueLength = (q.tail + j) % q.queueLength) :
    a % q.queueLength ≠ (q.head + i) % q.queueLength := by
  have hL := q.queueLength_pos
  have hc := h.count_le
  unfold freespace at hj
  rw [ha, ← Nat.mod_add_mod, h.tail_mod, Nat.mod_add_mod, Nat.add_assoc, add_mod_ring hL (by omega),
    add_mod_ring hL (by omega)]
  have := Nat.mod_lt q.head hL
  split <;> split <;> omega

/-- Writing into the enqueue regions of at most `n` cells keeps what the queue holds. -/
theorem Holds.write (h : q.Holds f) {n : Nat} (hn : n ≤ q.freespace) {base : Nat → Byte}
    (hb : ∀ c < q.numChannels, ∀ a < q.channelStride, base (c * q.channelStride + a) ≠ q.base (c * q.channelStride + a) →
      ∃ j < n, a = q.tail % q.queueLength + j) :
    ({ q with base := base } : ThresholdQueueBase).Holds f where
  spans := h.spans
  length_eq := h.length_eq
  cell := by
    intro c hc a ha i hi hai
    have hcell := h.cell c hc a ha i hi hai
    by_cases he : base (c * q.channelStride + a) = q.base (c * q.channelStride + a)
    · exact hcell.trans (congrArg some he.symm)
    · obtain ⟨j, hj, rfl⟩ := hb c hc a ha he
      exact absurd hai (h.free_cell (by omega) hi (Nat.mod_add_mod _ _ _))

/-! ### Dequeue -/

theorem Holds.count_dequeue (h : q.Holds f) {n : Nat} (hn : n ≤ q.count) :
    (q.dequeue n).Spans (q.count - n) := by
  have := h.count_le
  refine ⟨by simp [dequeue]; omega, ?_⟩
  show q.tail = ((q.head + n) % (2 * q.queueLength) + (q.count - n)) % (2 * q.queueLength)
  rw [Nat.mod_add_mod, Nat.add_assoc, Nat.add_sub_cancel' hn]
  exact h.spans.2

/-- `Dequeue` removes the front of every channel. -/
theorem Holds.dequeue (h : q.Holds f) {n : Nat} (hn : n ≤ q.count) :
    (q.dequeue n).Holds fun c => (f c).drop n := by
  have hs := h.count_dequeue hn
  have hcount := count_of_spans hs
  refine ⟨hcount.symm ▸ hs, ?_, ?_⟩
  · intro c hc
    rw [hcount, List.length_drop, h.length_eq c hc]
  · intro c hc a ha i hi hai
    rw [hcount] at hi
    rw [List.getElem?_drop]
    refine h.cell c hc a ha (n + i) (by omega) (hai.trans ?_)
    show ((q.head + n) % (2 * q.queueLength) + i) % q.queueLength = (q.head + (n + i)) % q.queueLength
    rw [Nat.add_mod, Nat.mod_mod_of_dvd _ (Dvd.intro_left 2 rfl), ← Nat.add_mod, Nat.add_assoc]

/-! ### Enqueue -/

/-- The copies of `Enqueue` on one channel, cell by cell. -/
theorem mirrorChannel_apply {S L t up dn c x : Nat} {m : Nat → Byte} (hdn : dn ≤ t) :
    mirrorChannel S L t up dn c m (c * S + x) =
      if x < dn then m (c * S + (L + x))
      else if t + L ≤ x ∧ x < t + L + up then m (c * S + (x - L))
      else m (c * S + x) := by
  unfold mirrorChannel memcpy
  generalize c * S = b
  split_ifs <;> first | omega | (congr 1 <;> omega)

theorem actsOnStride_mirrorChannel {S L t up dn : Nat} (hup : up = 0 ∨ t + L + up ≤ S) (hdn : dn ≤ t)
    (hL : L + dn ≤ S) : ActsOnStride S (mirrorChannel S L t up dn) where
  outside c m a ha := by
    rw [Nat.add_mul] at ha
    unfold mirrorChannel
    rw [memcpy_outside (by omega), memcpy_outside (by omega)]
  inside c m m' hm x hx := by
    rw [mirrorChannel_apply hdn, mirrorChannel_apply hdn, hm x hx]
    by_cases h1 : x < dn
    · rw [if_pos h1, if_pos h1, hm _ (by omega)]
    · rw [if_neg h1, if_neg h1, hm (x - L) (by omega)]

/-- The elements `Enqueue` copies from the ring up to the mirror. -/
private def countUp (q : ThresholdQueueBase) (n : Nat) : Nat :=
  if q.tail % q.queueLength + n < q.maxThreshold - 1 then n
  else if q.tail % q.queueLength < q.maxThreshold - 1 then q.maxThreshold - 1 - q.tail % q.queueLength
  else 0

/-- The elements `Enqueue` copies from the mirror down to the ring. -/
private def countDn (q : ThresholdQueueBase) (n : Nat) : Nat :=
  if q.tail % q.queueLength + n > q.queueLength then q.tail % q.queueLength + n - q.queueLength else 0

private theorem enqueue_base (q : ThresholdQueueBase) {n c x : Nat} (hn : n ≤ q.maxThreshold)
    (hc : c < q.numChannels) (hx : x < q.channelStride) :
    (q.enqueue n).base (c * q.channelStride + x) =
      if x < q.countDn n then q.base (c * q.channelStride + (q.queueLength + x))
      else if q.tail % q.queueLength + q.queueLength ≤ x ∧
          x < q.tail % q.queueLength + q.queueLength + q.countUp n then
        q.base (c * q.channelStride + (x - q.queueLength))
      else q.base (c * q.channelStride + x) := by
  have ht := Nat.mod_lt q.tail q.queueLength_pos
  have hM := q.one_le_maxThreshold
  have hML := q.maxThreshold_le
  have hup : q.countUp n = 0 ∨ q.tail % q.queueLength + q.queueLength + q.countUp n ≤ q.channelStride := by
    unfold countUp channelStride
    split_ifs <;> omega
  have hdn : q.countDn n ≤ q.tail % q.queueLength := by
    unfold countDn
    split_ifs <;> omega
  have hL : q.queueLength + q.countDn n ≤ q.channelStride := by
    unfold countDn channelStride
    split_ifs <;> omega
  have hbase : (q.enqueue n).base = if q.countUp n ≠ 0 ∨ q.countDn n ≠ 0 then
      forChannels q.numChannels
        (mirrorChannel q.channelStride q.queueLength (q.tail % q.queueLength) (q.countUp n) (q.countDn n)) q.base
      else q.base := rfl
  rw [hbase]
  by_cases h0 : q.countUp n ≠ 0 ∨ q.countDn n ≠ 0
  · rw [if_pos h0, forChannels_stride (actsOnStride_mirrorChannel hup hdn hL) _ hx, if_pos hc,
      mirrorChannel_apply hdn]
  · rw [if_neg h0, if_neg (by omega), if_neg (by omega)]

theorem Holds.spans_enqueue (h : q.Holds f) {n : Nat} (hn : n ≤ q.freespace) : (q.enqueue n).Spans (q.count + n) := by
  have := h.count_le
  unfold freespace at hn
  refine ⟨by simp [ThresholdQueueBase.enqueue]; omega, ?_⟩
  show (q.tail + n) % (2 * q.queueLength) = (q.head + (q.count + n)) % (2 * q.queueLength)
  conv => lhs; rw [h.spans.2]
  rw [Nat.mod_add_mod, Nat.add_assoc]

/-- After `Enqueue`, a cell at the position of an element that was there before is unchanged. -/
private theorem Holds.enqueue_base_old (h : q.Holds f) {n c x i : Nat} (hn : n ≤ q.freespace) (hm : n ≤ q.maxThreshold)
    (hc : c < q.numChannels) (hx : x < q.channelStride) (hi : i < q.count)
    (hxi : x % q.queueLength = (q.head + i) % q.queueLength) :
    (q.enqueue n).base (c * q.channelStride + x) = q.base (c * q.channelStride + x) := by
  have ht := Nat.mod_lt q.tail q.queueLength_pos
  have hlt := q.channelStride_lt
  have hfree : q.freespace ≤ q.queueLength := Nat.sub_le _ _
  -- a cell that is written is at the position of one of the new elements
  have hnew : ∀ j < n, x % q.queueLength ≠ (q.tail + j) % q.queueLength := fun j hj he =>
    h.free_cell (by omega) hi he hxi
  rw [enqueue_base q hm hc hx, if_neg, if_neg]
  · intro hup
    apply hnew (x - q.queueLength - q.tail % q.queueLength)
    · unfold countUp at hup
      split_ifs at hup <;> omega
    · rw [add_mod_ring q.queueLength_pos (by omega), mod_of_lt_two_mul (by omega)]
      split_ifs <;> omega
  · intro hdn
    have hxn : q.queueLength - q.tail % q.queueLength + x < n := by
      unfold countDn at hdn
      split_ifs at hdn <;> omega
    apply hnew _ hxn
    rw [add_mod_ring q.queueLength_pos (by omega), mod_of_lt_two_mul (by omega)]
    split_ifs <;> omega

/-- After `Enqueue`, a cell at the position of a new element contains what was written for it. -/
private theorem enqueue_base_new (q : ThresholdQueueBase) {n c x j : Nat} (hn : n ≤ q.freespace)
    (hm : n ≤ q.maxThreshold) (hc : c < q.numChannels) (hx : x < q.channelStride) (hj : j < n)
    (hxj : x % q.queueLength = (q.tail + j) % q.queueLength) :
    (q.enqueue n).base (c * q.channelStride + x) =
      q.base (c * q.channelStride + (q.tail % q.queueLength + j)) := by
  have ht := Nat.mod_lt q.tail q.queueLength_pos
  have hlt := q.channelStride_lt
  have hfree : q.freespace ≤ q.queueLength := Nat.sub_le _ _
  rw [add_mod_ring q.queueLength_pos (by omega), mod_of_lt_two_mul (by omega)] at hxj
  rw [enqueue_base q hm hc hx]
  unfold channelStride at hx
  unfold countDn countUp
  split_ifs at hxj ⊢ <;> first | omega | (congr 2 <;> omega)

/-- `Enqueue` appends, on every channel, what is in the enqueue region. -/
theorem Holds.enqueue (h : q.Holds f) {n : Nat} (hn : n ≤ q.freespace) (hm : n ≤ q.maxThreshold) :
    (q.enqueue n).Holds fun c => f c ++ q.enqueueRegion c n := by
  have hs := h.spans_enqueue hn
  have hcount := count_of_spans hs
  refine ⟨hcount.symm ▸ hs, ?_, ?_⟩
  · intro c hc
    rw [hcount, List.length_append, h.length_eq c hc, enqueueRegion, length_slice]
  · intro c hc x hx i hi hxi
    rw [hcount] at hi
    have hlen := h.length_eq c hc
    by_cases hold : i < q.count
    · rw [List.getElem?_append_left (by omega), h.cell c hc x hx i hold hxi]
      exact congrArg some (h.enqueue_base_old hn hm hc hx hold hxi).symm
    · obtain ⟨j, rfl⟩ : ∃ j, i = q.count + j := ⟨i - q.count, by omega⟩
      have hxj : x % q.queueLength = (q.tail + j) % q.queueLength := by
        rw [← Nat.mod_add_mod, h.tail_mod, Nat.mod_add_mod, Nat.add_assoc]
        exact hxi
      rw [List.getElem?_append_right (by omega), hlen, Nat.add_sub_cancel_left]
      refine Eq.trans ?_ (congrArg some (enqueue_base_new q hn hm hc hx (by omega) hxj).symm)
      simp [enqueueRegion, slice, show j < n by omega, Nat.add_assoc]

end ThresholdQueueBase

end ProcessNetwork
