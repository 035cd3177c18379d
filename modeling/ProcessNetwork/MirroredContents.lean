import ProcessNetwork.MirroredQueue

/-!
# What a queue with or without mirrored buffers holds

`Laid q` says where the bytes of the channels lie: inside of what the queue has, and two of them in one place only when they
have one position in the ring of one channel; with mirrored buffers, always then.  `Holds q F` says that every byte at the
position of a byte of `F` is that byte.  One condition thus covers the ring and its mirror, whoever keeps the mirror.
-/

namespace ProcessNetwork.MirroredQueue

variable {q : ThresholdQueueBase} {F : Fifo} {c n thresh : Nat}

namespace ThresholdQueueBase

/-- The bytes of the ring of a channel. -/
def ring (q : ThresholdQueueBase) : Nat := q.queueLength * q.elementSize

/-- The bytes of a channel, with the mirror. -/
def span (q : ThresholdQueueBase) : Nat := (q.queueLength + q.maxThreshold - 1) * q.elementSize

/-- Where byte `z` of a channel is. -/
def loc (q : ThresholdQueueBase) (c z : Nat) : Nat := q.place (q.ptr c 0 + z)

private theorem ptr_add (q : ThresholdQueueBase) (c idx i : Nat) :
    q.ptr c idx + i = q.ptr c 0 + (idx * q.elementSize + i) := by
  unfold ptr
  rw [Nat.add_zero, Nat.add_mul]
  omega

end ThresholdQueueBase

structure Laid (q : ThresholdQueueBase) : Prop where
  elementSize_pos : 0 < q.elementSize
  one_le_maxThreshold : 1 ≤ q.maxThreshold
  maxThreshold_le : q.maxThreshold ≤ q.queueLength
  inside : ∀ c < q.numChannels, q.ptr c 0 + q.span ≤ q.extent
  apart : ∀ c < q.numChannels, ∀ c' < q.numChannels, ∀ z < q.span, ∀ z' < q.span, q.loc c z = q.loc c' z' →
    c = c' ∧ z % q.ring = z' % q.ring
  mirrored : q.mbs.isSome → ∀ c < q.numChannels, ∀ z < q.span, ∀ z' < q.span, z % q.ring = z' % q.ring →
    q.loc c z = q.loc c z'
  plain : q.mbs.isNone → q.base = 0 ∧ q.channelStride = q.queueLength + q.maxThreshold - 1

structure Holds (q : ThresholdQueueBase) (F : Fifo) : Prop where
  laid : Laid q
  elementSize : q.elementSize = F.elementSize
  queueLength : q.queueLength = F.capacity
  maxThreshold : q.maxThreshold = F.maxThreshold
  numChannels : q.numChannels = F.numChannels
  head_lt : q.head < 2 * q.queueLength
  count_le : F.count ≤ q.queueLength
  tail : q.tail = (q.head + F.count) % (2 * q.queueLength)
  length : ∀ c < q.numChannels, (F.channels c).length = F.count * q.elementSize
  cell : ∀ c < q.numChannels, ∀ z < q.span, ∀ i b, (F.channels c)[i]? = some (some b) →
    z % q.ring = (q.head % q.queueLength * q.elementSize + i) % q.ring → q.block (q.loc c z) = b

namespace Laid

private theorem queueLength_pos (h : Laid q) : 0 < q.queueLength := by
  have := h.one_le_maxThreshold
  have := h.maxThreshold_le
  omega

private theorem ring_pos (h : Laid q) : 0 < q.ring := Nat.mul_pos h.queueLength_pos h.elementSize_pos

/-- The ring and the mirror, in bytes. -/
theorem span_eq (h : Laid q) : q.span = q.ring + (q.maxThreshold - 1) * q.elementSize := by
  have := h.one_le_maxThreshold
  unfold ThresholdQueueBase.span ThresholdQueueBase.ring
  rw [← Nat.add_mul, Nat.add_sub_assoc this]

private theorem span_lt (h : Laid q) : q.span < 2 * q.ring := by
  have := h.one_le_maxThreshold
  have hE := h.elementSize_pos
  have := Nat.mul_lt_mul_of_pos_right (show q.maxThreshold - 1 < q.queueLength by have := h.maxThreshold_le; omega) hE
  rw [h.span_eq]
  unfold ThresholdQueueBase.ring at this ⊢
  omega

/-- A region of at most `maxThreshold` elements from a ring position on stays inside of the channel. -/
theorem region_le (h : Laid q) (x : Nat) (hmax : n ≤ q.maxThreshold) :
    x % q.queueLength * q.elementSize + n * q.elementSize ≤ q.span := by
  have := Nat.mod_lt x h.queueLength_pos
  have := h.one_le_maxThreshold
  rw [← Nat.add_mul]
  exact Nat.mul_le_mul_right _ (by omega)

theorem ptr_le (h : Laid q) (hc : c < q.numChannels) (x : Nat) (hmax : n ≤ q.maxThreshold) :
    q.ptr c (x % q.queueLength) + n * q.elementSize ≤ q.extent := by
  have := h.inside c hc
  have := h.region_le x hmax
  rw [q.ptr_add]
  omega

end Laid

namespace Holds

private theorem count_eq (h : Holds q F) : q.count = F.count := ring_count h.count_le h.head_lt h.tail

private theorem freespace_eq (h : Holds q F) : q.freespace = F.capacity - F.count := by
  unfold ThresholdQueueBase.freespace
  rw [h.count_eq, h.queueLength]

/-- The byte position of the tail. -/
theorem tail_mod (h : Holds q F) : q.tail % q.queueLength * q.elementSize =
    (q.head % q.queueLength * q.elementSize + F.count * q.elementSize) % q.ring := by
  unfold ThresholdQueueBase.ring
  rw [← Nat.add_mul, Nat.mul_mod_mul_right, Nat.mod_add_mod]
  conv => lhs; rw [h.tail]
  rw [Nat.mod_mod_of_dvd _ (Dvd.intro_left 2 rfl)]

private theorem index_lt (h : Holds q F) (hc : c < q.numChannels) {i : Nat} {b : Byte}
    (hi : (F.channels c)[i]? = some (some b)) :
    i < F.count * q.elementSize := by
  rw [← h.length c hc]
  exact (List.getElem?_eq_some_iff.1 hi).1

/-- A byte of the enqueue region has the position of no byte of the contents. -/
theorem free (h : Holds q F) {i j : Nat} (hfree : thresh ≤ F.capacity - F.count) (hi : i < F.count * q.elementSize)
    (hj : j < thresh * q.elementSize) :
    (q.tail % q.queueLength * q.elementSize + j) % q.ring ≠ (q.head % q.queueLength * q.elementSize + i) % q.ring := by
  have hring := h.laid.ring_pos
  have hle : F.count * q.elementSize + thresh * q.elementSize ≤ q.ring := by
    have := h.count_le
    have := h.queueLength
    rw [← Nat.add_mul]
    exact Nat.mul_le_mul_right _ (by omega)
  have hhead : q.head % q.queueLength * q.elementSize < q.ring :=
    Nat.mul_lt_mul_of_pos_right (Nat.mod_lt _ h.laid.queueLength_pos) h.laid.elementSize_pos
  rw [h.tail_mod, Nat.mod_add_mod, Nat.add_assoc, add_mod_ring hring (by omega), add_mod_ring hring (by omega),
    Nat.mod_eq_of_lt hhead]
  split <;> split <;> omega

/-! ### Reading -/

theorem takeAll (h : Holds q F) {chans : List Nat} (hchans : ∀ c ∈ chans, c < q.numChannels) (hn : thresh ≤ F.count)
    (hmax : thresh ≤ F.maxThreshold) :
    ∃ reads, q.takeAll thresh chans = .ok (some reads) ∧
      List.Forall₂ (fun bytes c => Shows bytes ((F.channels c).take (thresh * F.elementSize))) reads chans := by
  induction chans with
  | nil => exact ⟨[], rfl, .nil⟩
  | cons c chans ih =>
    rw [List.forall_mem_cons] at hchans
    obtain ⟨reads, hreads, hall⟩ := ih hchans.2
    rw [← h.maxThreshold] at hmax
    have hptr : q.getRawDequeuePtr thresh c = some (q.ptr c (q.head % q.queueLength)) :=
      if_neg (by rw [h.count_eq]; omega)
    have hregion := h.laid.region_le q.head hmax
    refine ⟨_, ?_, .cons (a := q.load (q.ptr c (q.head % q.queueLength)) (thresh * q.elementSize)) ?_ hall⟩
    · rw [ThresholdQueueBase.takeAll, hptr]
      show (if _ then _ else _) = _
      rw [if_pos (h.laid.ptr_le hchans.1 q.head hmax), hreads]
      rfl
    · rw [← h.elementSize]
      have hle : thresh * q.elementSize ≤ F.count * q.elementSize := Nat.mul_le_mul_right _ hn
      refine ⟨?_, fun i b hi => ?_⟩
      · rw [ThresholdQueueBase.load, List.length_map, List.length_range, List.length_take, h.length c hchans.1]
        omega
      · rw [List.getElem?_take] at hi
        split_ifs at hi with hlt
        have hcell := h.cell c hchans.1 (q.head % q.queueLength * q.elementSize + i) (by omega) i b hi rfl
        rw [ThresholdQueueBase.load, List.getElem?_map, List.getElem?_range hlt, Option.map_some, q.ptr_add]
        exact congrArg some hcell

/-- `Dequeue` removes the front of each channel. -/
theorem dequeue (h : Holds q F) (hn : n ≤ F.count) : Holds (q.dequeue n) (F.drop n) := by
  have hcl := h.count_le
  have hL := h.laid.queueLength_pos
  refine { h with
    laid := ⟨h.laid.elementSize_pos, h.laid.one_le_maxThreshold, h.laid.maxThreshold_le, h.laid.inside, h.laid.apart,
      h.laid.mirrored, h.laid.plain⟩
    head_lt := Nat.mod_lt _ (by omega)
    count_le := by show F.count - n ≤ q.queueLength; omega
    tail := ?_
    length := fun c hc => ?_
    cell := fun c hc z hz i b hi hzi => ?_ }
  · show q.tail = ((q.head + n) % (2 * q.queueLength) + (F.count - n)) % (2 * q.queueLength)
    rw [Nat.mod_add_mod, h.tail, Nat.add_assoc, Nat.add_sub_cancel' hn]
  · show ((F.channels c).drop (n * F.elementSize)).length = (F.count - n) * q.elementSize
    rw [List.length_drop, h.length c hc, Nat.sub_mul, h.elementSize]
  · replace hi : ((F.channels c).drop (n * F.elementSize))[i]? = some (some b) := hi
    rw [List.getElem?_drop] at hi
    refine h.cell c hc z hz _ b hi (hzi.trans ?_)
    show ((q.head + n) % (2 * q.queueLength) % q.queueLength * q.elementSize + i) % (q.queueLength * q.elementSize) =
      (q.head % q.queueLength * q.elementSize + (n * F.elementSize + i)) % (q.queueLength * q.elementSize)
    rw [Nat.mod_mod_of_dvd _ (Dvd.intro_left 2 rfl), ← h.elementSize, ← Nat.mul_mod_mul_right, Nat.mod_add_mod,
      ← Nat.mul_mod_mul_right, Nat.mod_add_mod, Nat.add_mul, Nat.add_assoc]

/-! ### Writing -/

/-- The `n` bytes from the tail on are those of `g`, as far as these were written. -/
def Region (q : ThresholdQueueBase) (n : Nat) (g : Nat → Nat → Option Byte) : Prop :=
  ∀ c < q.numChannels, ∀ i < n, ∀ b, g c i = some b → q.block (q.loc c (q.tail % q.queueLength * q.elementSize + i)) = b

/-- The place of a byte that is written through the pointer of channel `c`. -/
theorem place_ptr (q : ThresholdQueueBase) (c x i : Nat) :
    q.place (q.ptr c x + i) = q.loc c (x * q.elementSize + i) := by
  unfold ThresholdQueueBase.loc
  rw [q.ptr_add]

private theorem store (h : Holds q F) (hc : c < q.numChannels) (w : Nat → Option Byte)
    (hfree : thresh ≤ F.capacity - F.count)
    (hmax : thresh ≤ q.maxThreshold) :
    Holds (q.store (q.ptr c (q.tail % q.queueLength)) (thresh * q.elementSize) w) F := by
  have hregion := h.laid.region_le q.tail hmax
  refine { h with
    laid := ⟨h.laid.elementSize_pos, h.laid.one_le_maxThreshold, h.laid.maxThreshold_le, h.laid.inside, h.laid.apart,
      h.laid.mirrored, h.laid.plain⟩
    cell := fun c' hc' z hz i b hi hzi => ?_ }
  show scatter _ w (thresh * q.elementSize) q.block (q.loc c' z) = b
  rw [scatter_outside, h.cell c' hc' z hz i b hi hzi]
  intro j hj he
  rw [place_ptr] at he
  obtain ⟨-, hmod⟩ := h.laid.apart c hc c' hc' _ (by omega) z hz he
  exact h.free hfree (h.index_lt hc' hi) hj (hmod.trans hzi)

private theorem region_store (h : Holds q F) (hc : c < q.numChannels) {w : Nat → Option Byte} {g : Nat → Nat → Option Byte}
    (hg : Region q (thresh * q.elementSize) g) (hfree : thresh ≤ F.capacity - F.count) (hmax : thresh ≤ q.maxThreshold) :
    Region (q.store (q.ptr c (q.tail % q.queueLength)) (thresh * q.elementSize) w) (thresh * q.elementSize)
      fun c' i => if c' = c then (w i).or (g c' i) else g c' i := by
  have hregion := h.laid.region_le q.tail hmax
  have hring : thresh * q.elementSize ≤ q.ring := by
    have := h.queueLength
    exact Nat.mul_le_mul_right _ (by omega)
  -- different bytes of the region of a channel have different positions
  have hinj {c' i j : Nat} (hc' : c' < q.numChannels) (hi : i < thresh * q.elementSize) (hj : j < thresh * q.elementSize)
      (he : q.place (q.ptr c (q.tail % q.queueLength) + j) = q.loc c' (q.tail % q.queueLength * q.elementSize + i)) :
      c = c' ∧ j = i := by
    rw [place_ptr] at he
    obtain ⟨hcc, hmod⟩ := h.laid.apart c hc c' hc' _ (by omega) _ (by omega) he
    refine ⟨hcc, ?_⟩
    rw [add_mod_ring h.laid.ring_pos (by omega), add_mod_ring h.laid.ring_pos (by omega)] at hmod
    split at hmod <;> split at hmod <;> omega
  intro c' hc' i hi b hb
  replace hi : i < thresh * q.elementSize := hi
  replace hb : (if c' = c then (w i).or (g c' i) else g c' i) = some b := hb
  show scatter (fun i => q.place (q.ptr c (q.tail % q.queueLength) + i)) w (thresh * q.elementSize) q.block
    (q.loc c' (q.tail % q.queueLength * q.elementSize + i)) = b
  by_cases hcc : c' = c
  · subst hcc
    rw [if_pos rfl] at hb
    have hscatter := scatter_inside (p := fun i => q.place (q.ptr c' (q.tail % q.queueLength) + i)) (w := w) hi
      (fun j hj he => (hinj hc hi hj (he.trans (place_ptr q c' _ i))).2) q.block
    rw [place_ptr] at hscatter
    rw [hscatter]
    cases hw : w i with
    | some b' =>
      rw [hw] at hb
      exact Option.some.inj hb
    | none =>
      rw [hw] at hb
      exact hg c' hc' i hi b hb
  · rw [if_neg hcc] at hb
    rw [scatter_outside fun j hj he => hcc (hinj hc' hi hj he).1.symm]
    exact hg c' hc' i hi b hb

private theorem putAll (h : Holds q F) {chans : List Nat} {w g : Nat → Nat → Option Byte}
    (hchans : ∀ c ∈ chans, c < q.numChannels)
    (hfree : thresh ≤ F.capacity - F.count) (hmax : thresh ≤ q.maxThreshold)
    (hg : Region q (thresh * q.elementSize) g) :
    ∃ q', q.putAll thresh w chans = .ok (some q') ∧ Holds q' F ∧
      Region q' (thresh * q'.elementSize) fun c i => if c ∈ chans then (w c i).or (g c i) else g c i := by
  induction chans generalizing q g with
  | nil => exact ⟨q, rfl, h, by simpa using hg⟩
  | cons c chans ih =>
    rw [List.forall_mem_cons] at hchans
    have hptr : q.getRawEnqueuePtr thresh c = some (q.ptr c (q.tail % q.queueLength)) :=
      if_neg (by rw [h.freespace_eq]; omega)
    obtain ⟨q', hq', hholds, hregion⟩ := ih (h.store hchans.1 (w c) hfree hmax) hchans.2 hmax
      (h.region_store hchans.1 hg hfree hmax)
    refine ⟨q', ?_, hholds, fun c' hc' i hi b hb => hregion c' hc' i hi b ?_⟩
    · rw [ThresholdQueueBase.putAll, hptr]
      show (if _ then _ else _) = _
      rw [if_pos (h.laid.ptr_le hchans.1 q.tail hmax), hq']
    · rw [← hb]
      by_cases hcc : c' = c
      · subst hcc
        have hor : (w c' i).or ((w c' i).or (g c' i)) = (w c' i).or (g c' i) := by cases w c' i <;> rfl
        simp [hor]
      · simp [hcc]

/-- The contents after `Enqueue`, by the bytes at the positions of the contents and of the region. -/
theorem append (h : Holds q F) {g : Nat → Nat → Option Byte} (hn : n ≤ F.capacity - F.count) {block : Nat → Byte}
    (hold : ∀ c < q.numChannels, ∀ z < q.span, ∀ i < F.count * q.elementSize,
      z % q.ring = (q.head % q.queueLength * q.elementSize + i) % q.ring → block (q.loc c z) = q.block (q.loc c z))
    (hnew : ∀ c < q.numChannels, ∀ z < q.span, ∀ i < n * q.elementSize,
      z % q.ring = (q.tail % q.queueLength * q.elementSize + i) % q.ring → ∀ b, g c i = some b → block (q.loc c z) = b) :
    Holds { q with block := block, tail := (q.tail + n) % (2 * q.queueLength) } (F.append n g) := by
  have hcl := h.count_le
  have hql := h.queueLength
  refine { h with
    laid := ⟨h.laid.elementSize_pos, h.laid.one_le_maxThreshold, h.laid.maxThreshold_le, h.laid.inside, h.laid.apart,
      h.laid.mirrored, h.laid.plain⟩
    count_le := by show F.count + n ≤ q.queueLength; omega
    tail := ?_
    length := fun c hc => ?_
    cell := fun c hc z hz i b hi hzi => ?_ }
  · show (q.tail + n) % (2 * q.queueLength) = (q.head + (F.count + n)) % (2 * q.queueLength)
    rw [h.tail, Nat.mod_add_mod, Nat.add_assoc]
  · show (F.channels c ++ (List.range (n * F.elementSize)).map (g c)).length = (F.count + n) * q.elementSize
    rw [List.length_append, h.length c hc, List.length_map, List.length_range, Nat.add_mul, h.elementSize]
  · replace hi : (F.channels c ++ (List.range (n * F.elementSize)).map (g c))[i]? = some (some b) := hi
    replace hzi : z % q.ring = (q.head % q.queueLength * q.elementSize + i) % q.ring := hzi
    show block (q.loc c z) = b
    by_cases hlt : i < F.count * q.elementSize
    · rw [List.getElem?_append_left (by rw [h.length c hc]; exact hlt)] at hi
      rw [hold c hc z hz i hlt hzi]
      exact h.cell c hc z hz i b hi hzi
    · obtain ⟨j, rfl⟩ : ∃ j, i = F.count * q.elementSize + j := ⟨i - F.count * q.elementSize, by omega⟩
      rw [List.getElem?_append_right (by rw [h.length c hc]; omega), h.length c hc, Nat.add_sub_cancel_left,
        ← h.elementSize] at hi
      have hj : j < n * q.elementSize := by
        have := (List.getElem?_eq_some_iff.1 hi).1
        simpa using this
      rw [List.getElem?_map, List.getElem?_range hj] at hi
      refine hnew c hc z hz j hj ?_ b (Option.some.inj hi)
      rw [hzi, h.tail_mod, Nat.mod_add_mod, Nat.add_assoc]

/-- `Enqueue` with mirrored buffers. -/
theorem enqueue_mirrored (h : Holds q F) (hmbs : q.mbs.isSome) {g : Nat → Nat → Option Byte}
    (hg : Region q (thresh * q.elementSize) g) (hn : n ≤ thresh) (hfree : thresh ≤ F.capacity - F.count)
    (hmax : thresh ≤ q.maxThreshold) : Holds (q.enqueue n) (F.append n g) := by
  have hregion := h.laid.region_le q.tail hmax
  have hle : n * q.elementSize ≤ thresh * q.elementSize := Nat.mul_le_mul_right _ hn
  have hblock : q.enqueue n = { q with block := q.block, tail := (q.tail + n) % (2 * q.queueLength) } := by
    unfold ThresholdQueueBase.enqueue
    have : q.mbs.isNone = false := by rw [← Option.not_isSome, hmbs]; rfl
    simp only [this, Bool.false_eq_true, false_and, if_false]
  rw [hblock]
  refine h.append (by omega) (fun _ _ _ _ _ _ _ => rfl) fun c hc z hz i hi hzi b hb => ?_
  rw [h.laid.mirrored hmbs c hc z hz _ (by omega) hzi]
  exact hg c hc i (by omega) b hb

/-! ### `Enqueue` without mirrored buffers -/

/-- The bytes that `Enqueue` copies from the ring up to the mirror. -/
private def bytesUp (q : ThresholdQueueBase) (n : Nat) : Nat :=
  if q.tail % q.queueLength * q.elementSize + n * q.elementSize < (q.maxThreshold - 1) * q.elementSize then
    n * q.elementSize
  else (q.maxThreshold - 1) * q.elementSize - q.tail % q.queueLength * q.elementSize

/-- The bytes that `Enqueue` copies from the mirror down to the ring. -/
private def bytesDn (q : ThresholdQueueBase) (n : Nat) : Nat :=
  q.tail % q.queueLength * q.elementSize + n * q.elementSize - q.ring

private theorem loc_plain (h : Laid q) (hmbs : q.mbs = none) (c z : Nat) : q.loc c z = c * q.span + z := by
  obtain ⟨hbase, hstride⟩ := h.plain (by rw [hmbs]; rfl)
  unfold ThresholdQueueBase.loc ThresholdQueueBase.place ThresholdQueueBase.ptr ThresholdQueueBase.span
  rw [hmbs, hbase, hstride, Nat.zero_add, Nat.add_zero, Nat.mul_assoc]

private theorem enqueue_block (h : Laid q) (hmbs : q.mbs = none) (hmax : n ≤ q.maxThreshold) (hc : c < q.numChannels)
    {x : Nat} (hx : x < q.span) :
    (q.enqueue n).block (c * q.span + x) =
      if x < bytesDn q n then q.block (c * q.span + (q.ring + x))
      else if q.tail % q.queueLength * q.elementSize + q.ring ≤ x ∧
          x < q.tail % q.queueLength * q.elementSize + q.ring + bytesUp q n then
        q.block (c * q.span + (x - q.ring))
      else q.block (c * q.span + x) := by
  obtain ⟨hbase, hstride⟩ := h.plain (by rw [hmbs]; rfl)
  have hE := h.elementSize_pos
  have ht := Nat.mod_lt q.tail h.queueLength_pos
  have hM := h.one_le_maxThreshold
  have hML := h.maxThreshold_le
  have hspan := h.span_eq
  have hregion := h.region_le q.tail hmax
  have hML' : (q.maxThreshold - 1) * q.elementSize ≤ q.ring := Nat.mul_le_mul_right _ (by omega)
  have htM : q.tail % q.queueLength * q.elementSize ≤ q.ring := Nat.mul_le_mul_right _ (by omega)
  obtain ⟨t, ht'⟩ : ∃ t, t = q.tail % q.queueLength := ⟨_, rfl⟩
  rw [← ht'] at ht hregion htM
  -- the two numbers of elements that `Enqueue` copies, in bytes
  have hup : (if t + n < q.maxThreshold - 1 then n else if t < q.maxThreshold - 1 then q.maxThreshold - 1 - t else 0) *
      q.elementSize = bytesUp q n := by
    have h1 : t + n < q.maxThreshold - 1 ↔ t * q.elementSize + n * q.elementSize < (q.maxThreshold - 1) * q.elementSize := by
      rw [← Nat.add_mul, Nat.mul_lt_mul_right hE]
    unfold bytesUp
    rw [← ht']
    by_cases h2 : t + n < q.maxThreshold - 1
    · rw [if_pos h2, if_pos (h1.1 h2)]
    · rw [if_neg h2, if_neg (fun h3 => h2 (h1.2 h3)), ← Nat.sub_mul]
      split
      · rfl
      · rw [show q.maxThreshold - 1 - t = 0 by omega]
  have hdn : (if t + n > q.queueLength then t + n - q.queueLength else 0) * q.elementSize = bytesDn q n := by
    unfold bytesDn ThresholdQueueBase.ring
    rw [← ht', ← Nat.add_mul, ← Nat.sub_mul]
    split
    · rfl
    · rw [show t + n - q.queueLength = 0 by omega]
  have hup' : bytesUp q n = 0 ∨ t * q.elementSize + q.ring + bytesUp q n ≤ q.span := by
    unfold bytesUp
    rw [← ht']
    split <;> omega
  have hdn' : bytesDn q n ≤ t * q.elementSize := by
    unfold bytesDn
    rw [← ht']
    have : n * q.elementSize ≤ q.ring := Nat.mul_le_mul_right _ (by omega)
    omega
  have hL : q.ring + bytesDn q n ≤ q.span := by
    unfold bytesDn
    rw [← ht']
    omega
  -- the loop over the channels copies up to the mirror first, and then down from it
  have hbody (chan : Nat) (m : Nat → Byte) :
      (let chanBase := q.base + chan * q.channelStride * q.elementSize
       let up := memcpy m (chanBase + (t + q.queueLength) * q.elementSize) m (chanBase + t * q.elementSize)
         ((if t + n < q.maxThreshold - 1 then n else if t < q.maxThreshold - 1 then q.maxThreshold - 1 - t else 0) *
           q.elementSize)
       memcpy up chanBase up (chanBase + q.queueLength * q.elementSize)
         ((if t + n > q.queueLength then t + n - q.queueLength else 0) * q.elementSize)) =
      ProcessNetwork.ThresholdQueueBase.mirrorChannel q.span q.ring (t * q.elementSize) (bytesUp q n) (bytesDn q n) chan
        m := by
    have hspan' : chan * q.channelStride * q.elementSize = chan * q.span := by rw [hstride, Nat.mul_assoc]; rfl
    dsimp only
    rw [hup, hdn, hbase, Nat.zero_add, hspan', Nat.add_mul]
    rfl
  -- without anything to copy the loop is skipped, and the two lengths are 0
  by_cases h0 : (if t + n < q.maxThreshold - 1 then n else if t < q.maxThreshold - 1 then q.maxThreshold - 1 - t else 0) ≠
      0 ∨ (if t + n > q.queueLength then t + n - q.queueLength else 0) ≠ 0
  · have hblock : (q.enqueue n).block = forChannels q.numChannels
        (ProcessNetwork.ThresholdQueueBase.mirrorChannel q.span q.ring (t * q.elementSize) (bytesUp q n) (bytesDn q n))
        q.block := by
      rw [← forChannels_congr (fun chan _ m => hbody chan m) q.block]
      unfold ThresholdQueueBase.enqueue
      rw [← ht', hmbs]
      exact if_pos ⟨rfl, h0⟩
    rw [hblock, forChannels_stride (ProcessNetwork.ThresholdQueueBase.actsOnStride_mirrorChannel hup' hdn' hL) _ hx,
      if_pos hc, ProcessNetwork.ThresholdQueueBase.mirrorChannel_apply hdn', ht']
  · have hblock : (q.enqueue n).block = q.block := by
      unfold ThresholdQueueBase.enqueue
      rw [← ht', hmbs]
      exact if_neg fun hne => h0 hne.2
    rw [not_or, not_not, not_not] at h0
    rw [h0.1, Nat.zero_mul] at hup
    rw [h0.2, Nat.zero_mul] at hdn
    rw [hblock, ← hup, ← hdn, if_neg (by omega), if_neg (by omega)]

/-- `Enqueue` without mirrored buffers. -/
theorem enqueue_plain (h : Holds q F) (hmbs : q.mbs = none) {g : Nat → Nat → Option Byte}
    (hg : Region q (thresh * q.elementSize) g) (hn : n ≤ thresh) (hfree : thresh ≤ F.capacity - F.count)
    (hmax : thresh ≤ q.maxThreshold) : Holds (q.enqueue n) (F.append n g) := by
  have hspan := h.laid.span_eq
  have hlt := h.laid.span_lt
  have hregion := h.laid.region_le q.tail hmax
  have hle : n * q.elementSize ≤ thresh * q.elementSize := Nat.mul_le_mul_right _ hn
  have hring : thresh * q.elementSize ≤ q.ring := by
    have := h.queueLength
    exact Nat.mul_le_mul_right _ (by omega)
  have ht : q.tail % q.queueLength * q.elementSize < q.ring :=
    Nat.mul_lt_mul_of_pos_right (Nat.mod_lt _ h.laid.queueLength_pos) h.laid.elementSize_pos
  have hblock {c x : Nat} (hc : c < q.numChannels) (hx : x < q.span) :
      (q.enqueue n).block (q.loc c x) = _ :=
    (congrArg _ (loc_plain h.laid hmbs c x)).trans (enqueue_block h.laid hmbs (hn.trans hmax) hc hx)
  show Holds { q with block := (q.enqueue n).block, tail := (q.tail + n) % (2 * q.queueLength) } _
  refine h.append (show n ≤ F.capacity - F.count by omega) (fun c hc z hz i hi hzi => ?_) fun c hc z hz i hi hzi b hb => ?_
  · -- a byte that is written is at the position of one of the new elements
    have hnew (j : Nat) (hj : j < n * q.elementSize) :
        z % q.ring ≠ (q.tail % q.queueLength * q.elementSize + j) % q.ring := fun he =>
      h.free hfree hi (show j < thresh * q.elementSize by omega) (he.symm.trans hzi)
    rw [hblock hc hz, if_neg, if_neg, loc_plain h.laid hmbs]
    · intro hup
      refine hnew (z - q.ring - q.tail % q.queueLength * q.elementSize) ?_ ?_
      · unfold bytesUp at hup
        split at hup <;> omega
      · rw [add_mod_ring h.laid.ring_pos (by omega), Nat.mod_eq_of_lt ht, mod_of_lt_two_mul (by omega)]
        split <;> split <;> omega
    · intro hdn
      unfold bytesDn at hdn
      refine hnew (q.ring - q.tail % q.queueLength * q.elementSize + z) (by omega) ?_
      rw [add_mod_ring h.laid.ring_pos (by omega), Nat.mod_eq_of_lt ht, mod_of_lt_two_mul (by omega)]
      split <;> split <;> omega
  · have hb' := hg c hc i (by omega) b hb
    rw [loc_plain h.laid hmbs] at hb'
    rw [add_mod_ring h.laid.ring_pos (by omega), Nat.mod_eq_of_lt ht, mod_of_lt_two_mul (by omega)] at hzi
    rw [hblock hc hz, ← hb']
    unfold bytesDn bytesUp
    split_ifs at hzi ⊢ <;> first | omega | (congr 2 <;> omega)

private theorem enqueue (h : Holds q F) {g : Nat → Nat → Option Byte} (hg : Region q (thresh * q.elementSize) g)
    (hn : n ≤ thresh)
    (hfree : thresh ≤ F.capacity - F.count) (hmax : thresh ≤ q.maxThreshold) : Holds (q.enqueue n) (F.append n g) := by
  cases hmbs : q.mbs with
  | none => exact h.enqueue_plain hmbs hg hn hfree hmax
  | some s => exact h.enqueue_mirrored (by rw [hmbs]; rfl) hg hn hfree hmax

/-! ### Every act -/

/-- An act does to the queue what it does to the lists. -/
theorem act (h : Holds q F) {a : Act} (hallowed : F.Allowed a) :
    ∃ q' out, q.act a = .ok (q', out) ∧ F.Answers a out ∧ Holds q' (F.next a) := by
  unfold Fifo.Answers Fifo.next
  cases a with
  | put thresh chans w count =>
    obtain ⟨hne, hchans, hcount⟩ := hallowed
    rw [← h.numChannels] at hchans
    by_cases hacc : F.Accepts (.put thresh chans w count)
    · simp only [if_pos hacc]
      have hmax : thresh ≤ q.maxThreshold := by rw [h.maxThreshold]; exact hacc.2
      have hnone : Region q (thresh * q.elementSize) fun _ _ => none := fun _ _ _ _ _ hb => by cases hb
      obtain ⟨q', hq', hholds, hregion⟩ := h.putAll hchans hacc.1 hmax hnone
      have hmax' : thresh ≤ q'.maxThreshold := by rw [hholds.maxThreshold]; exact hacc.2
      refine ⟨q'.enqueue count, .done, ?_, rfl, ?_⟩
      · rw [ThresholdQueueBase.act, hq']
        rfl
      · simp only [Option.or_none] at hregion
        exact hholds.enqueue hregion hcount hacc.1 hmax'
    · simp only [if_neg hacc]
      refine ⟨q, .refused, ?_, rfl, h⟩
      obtain ⟨c, chans, rfl⟩ := List.exists_cons_of_ne_nil hne
      have hptr : q.getRawEnqueuePtr thresh c = none := by
        refine if_pos ?_
        rw [h.freespace_eq, h.maxThreshold]
        exact (Decidable.not_and_iff_or_not.1 hacc).imp Nat.lt_of_not_le Nat.lt_of_not_le
      rw [ThresholdQueueBase.act, ThresholdQueueBase.putAll, hptr]
      rfl
  | take thresh chans count =>
    obtain ⟨hne, hchans, hcount⟩ := hallowed
    rw [← h.numChannels] at hchans
    by_cases hacc : F.Accepts (.take thresh chans count)
    · simp only [if_pos hacc]
      obtain ⟨reads, hreads, hall⟩ := h.takeAll hchans hacc.1 hacc.2
      refine ⟨q.dequeue count, .bytes reads, ?_, ⟨reads, rfl, hall⟩, h.dequeue (hcount.trans hacc.1)⟩
      rw [ThresholdQueueBase.act, hreads]
      rfl
    · simp only [if_neg hacc]
      refine ⟨q, .refused, ?_, rfl, h⟩
      obtain ⟨c, chans, rfl⟩ := List.exists_cons_of_ne_nil hne
      have hptr : q.getRawDequeuePtr thresh c = none := by
        refine if_pos ?_
        rw [h.count_eq, h.maxThreshold]
        exact (Decidable.not_and_iff_or_not.1 hacc).imp Nat.lt_of_not_le Nat.lt_of_not_le
      rw [ThresholdQueueBase.act, ThresholdQueueBase.takeAll, hptr]
      rfl

theorem run (h : Holds q F) {acts : List Act} (horderly : F.Orderly acts) :
    ∃ q' outs, q.run acts = .ok (q', outs) ∧ F.Follows acts outs ∧ Holds q' (acts.foldl Fifo.next F) := by
  induction acts generalizing q F with
  | nil => exact ⟨q, [], rfl, trivial, h⟩
  | cons a acts ih =>
    obtain ⟨hallowed, horderly⟩ := horderly
    obtain ⟨q', out, hact, hanswers, hholds⟩ := h.act hallowed
    obtain ⟨q'', outs, hrun, hfollows, hholds'⟩ := ih hholds horderly
    refine ⟨q'', out :: outs, ?_, ⟨hanswers, hfollows⟩, hholds'⟩
    rw [ThresholdQueueBase.run, hact]
    show (q'.run acts >>= _) = _
    rw [hrun]
    rfl

end Holds

/-- A queue that nothing was put into holds nothing. -/
theorem Laid.holds (h : Laid q) (hhead : q.head = 0) (htail : q.tail = 0) :
    Holds q (Fifo.create q.elementSize q.queueLength q.maxThreshold q.numChannels) := by
  have hL := h.queueLength_pos
  exact {
    laid := h
    elementSize := rfl
    queueLength := rfl
    maxThreshold := rfl
    numChannels := rfl
    head_lt := by omega
    count_le := Nat.zero_le _
    tail := by rw [hhead, htail]; exact (Nat.zero_mod _).symm
    length := fun _ _ => (Nat.zero_mul _).symm
    cell := fun _ _ _ _ _ _ hi => by cases hi }

end ProcessNetwork.MirroredQueue
