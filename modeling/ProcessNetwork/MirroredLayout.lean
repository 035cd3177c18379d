import ProcessNetwork.MirroredContents

/-!
# Where the mirrored buffers put the channels

`Fits` is the condition on the element size, the page size and the attributes under which the channels of a queue on mirrored
buffers lie as the queue takes for granted: the element size divides the size of a buffer, and each channel starts in its own
buffer, so early that the part that has a mirror ends in it.  A queue without a mirror (`maxThreshold` 1) needs less.
-/

namespace ProcessNetwork.MirroredQueue

/-! ### The sizes, when nothing wraps -/

/-- The bytes of the pages that hold `size` bytes. -/
def pages (pageSize size : Nat) : Nat := if size % pageSize ≠ 0 then size + (pageSize - size % pageSize) else size

private theorem le_pages (pageSize size : Nat) : size ≤ pages pageSize size := by
  unfold pages
  split <;> omega

private theorem dvd_pages {pageSize : Nat} (hpos : 0 < pageSize) (size : Nat) : pageSize ∣ pages pageSize size := by
  unfold pages
  have hdiv := Nat.div_add_mod size pageSize
  have hlt := Nat.mod_lt size hpos
  split
  · refine ⟨size / pageSize + 1, ?_⟩
    rw [Nat.mul_add, Nat.mul_one]
    omega
  · exact Nat.dvd_of_mod_eq_zero (by omega)

private theorem roundUp_eq {pageSize size : Nat} (h : pages pageSize size < 2 ^ 64) :
    roundUp pageSize size = pages pageSize size := by
  unfold roundUp
  unfold pages at h ⊢
  split
  · rename_i hne
    rw [if_pos hne] at h
    exact u64_of_lt h
  · rfl

namespace ThresholdQueueAttr

variable (attr : ThresholdQueueAttr) (pageSize elemSize : Nat)

/-- The base offset and the channel offset in elements. -/
def baseElements : Nat := attr.baseOffset % pageSize / elemSize

def chanElements : Nat := attr.chanOffset / elemSize

def offsets : Nat := attr.baseElements pageSize elemSize + (attr.numChannels - 1) * attr.chanElements elemSize

def bufferBytes : Nat := pages pageSize (max attr.queueLength (max attr.maxThreshold 1) * elemSize)

def mirrorBytes : Nat := pages pageSize ((max attr.maxThreshold 1 - 1 + attr.offsets pageSize elemSize) * elemSize)

def length : Nat := attr.bufferBytes pageSize elemSize / elemSize

def threshold : Nat :=
  min (attr.mirrorBytes pageSize elemSize / elemSize + 1 - attr.offsets pageSize elemSize) (attr.length pageSize elemSize)

/-- There are elements and channels, and less than `2 ^ 62` bytes are mapped. -/
structure Sized : Prop where
  pageSize_pos : 0 < pageSize
  elemSize_pos : 0 < elemSize
  numChannels_pos : 0 < attr.numChannels
  numChannels_lt : attr.numChannels < 2 ^ 31
  bytes_lt : (attr.bufferBytes pageSize elemSize + attr.mirrorBytes pageSize elemSize) * attr.numChannels < 2 ^ 62

/-- What the elements of a page do not fill, over the channels before `c`. -/
def lost (c : Nat) : Nat :=
  c * (attr.bufferBytes pageSize elemSize % elemSize + attr.mirrorBytes pageSize elemSize % elemSize)

/-- How far the offsets move channel `c` on. -/
def moved (c : Nat) : Nat := attr.baseElements pageSize elemSize + c * (attr.chanElements elemSize * elemSize)

/-- Channel `c` starts in its own buffer, and the part that has a mirror ends in it. -/
def InBuffer (c : Nat) : Prop :=
  attr.lost pageSize elemSize c ≤ attr.moved pageSize elemSize c ∧
    attr.moved pageSize elemSize c + (attr.threshold pageSize elemSize - 1) * elemSize ≤
      attr.bufferBytes pageSize elemSize + attr.lost pageSize elemSize c

instance (c : Nat) : Decidable (attr.InBuffer pageSize elemSize c) := inferInstanceAs (Decidable (_ ∧ _))

/-- The channels lie as the queue takes for granted. -/
def Placed : Prop :=
  elemSize ∣ attr.bufferBytes pageSize elemSize ∧ (∀ c < attr.numChannels, attr.InBuffer pageSize elemSize c) ∨
    attr.threshold pageSize elemSize = 1 ∧ (attr.mirrorBytes pageSize elemSize = 0 ∨
      ∀ c < attr.numChannels, attr.lost pageSize elemSize c ≤ attr.moved pageSize elemSize c)

instance : Decidable (attr.Placed pageSize elemSize) := inferInstanceAs (Decidable (_ ∧ _ ∨ _ ∧ (_ ∨ _)))

private theorem offsets_le : attr.offsets pageSize elemSize * elemSize ≤ attr.mirrorBytes pageSize elemSize :=
  (Nat.mul_le_mul_right _ (Nat.le_add_left _ _)).trans (le_pages _ _)

variable {attr} {pageSize elemSize}

namespace Sized

private theorem bytes_le (h : attr.Sized pageSize elemSize) :
    attr.bufferBytes pageSize elemSize + attr.mirrorBytes pageSize elemSize < 2 ^ 62 :=
  (Nat.le_mul_of_pos_right _ h.numChannels_pos).trans_lt h.bytes_lt

private theorem length_pos (h : attr.Sized pageSize elemSize) : 0 < attr.length pageSize elemSize := by
  refine Nat.div_pos ((Nat.le_mul_of_pos_left elemSize ?_).trans (le_pages _ _)) h.elemSize_pos
  omega

private theorem one_le_threshold (h : attr.Sized pageSize elemSize) : 1 ≤ attr.threshold pageSize elemSize := by
  have := h.length_pos
  have := (Nat.le_div_iff_mul_le h.elemSize_pos).2 (attr.offsets_le pageSize elemSize)
  unfold threshold
  omega

/-- The part of a channel that has a mirror, behind all offsets, is in the mirror. -/
theorem threshold_le (h : attr.Sized pageSize elemSize) :
    (attr.offsets pageSize elemSize + (attr.threshold pageSize elemSize - 1)) * elemSize +
      attr.mirrorBytes pageSize elemSize % elemSize ≤ attr.mirrorBytes pageSize elemSize := by
  have hle : attr.offsets pageSize elemSize + (attr.threshold pageSize elemSize - 1) ≤
      attr.mirrorBytes pageSize elemSize / elemSize := by
    have := (Nat.le_div_iff_mul_le h.elemSize_pos).2 (attr.offsets_le pageSize elemSize)
    unfold threshold
    omega
  have := Nat.mul_le_mul_right elemSize hle
  have := Nat.div_add_mod' (attr.mirrorBytes pageSize elemSize) elemSize
  omega

private theorem moved_le (h : attr.Sized pageSize elemSize) {c : Nat} (hc : c < attr.numChannels) :
    attr.moved pageSize elemSize c ≤ attr.offsets pageSize elemSize * elemSize := by
  unfold moved offsets
  rw [Nat.add_mul, Nat.mul_assoc]
  exact Nat.add_le_add (Nat.le_mul_of_pos_right _ h.elemSize_pos) (Nat.mul_le_mul_right _ (by omega))

/-- What `AllocateBuf` makes of the attributes. -/
theorem create_eq (h : attr.Sized pageSize elemSize) (block : Nat → Byte) :
    ThresholdQueueBase.create pageSize block elemSize attr =
      { elementSize := elemSize
        queueLength := attr.length pageSize elemSize
        maxThreshold := attr.threshold pageSize elemSize
        numChannels := attr.numChannels
        channelStride := u64 (attr.length pageSize elemSize + attr.mirrorBytes pageSize elemSize / elemSize +
          attr.chanElements elemSize)
        mbs := some ⟨attr.bufferBytes pageSize elemSize, attr.mirrorBytes pageSize elemSize, attr.numChannels⟩
        base := attr.baseElements pageSize elemSize
        head := 0
        tail := 0
        block := block } := by
  have hbytes := h.bytes_le
  have hE := h.elemSize_pos
  have hlt := h.numChannels_lt
  have hpos := h.numChannels_pos
  have hoff := attr.offsets_le pageSize elemSize
  have hone := h.one_le_threshold
  have hoff' : attr.offsets pageSize elemSize ≤ attr.offsets pageSize elemSize * elemSize := Nat.le_mul_of_pos_right _ hE
  have hdef : attr.offsets pageSize elemSize =
    attr.baseElements pageSize elemSize + (attr.numChannels - 1) * attr.chanElements elemSize := rfl
  have hmir := le_pages pageSize ((max attr.maxThreshold 1 - 1 + attr.offsets pageSize elemSize) * elemSize)
  have hbuf := le_pages pageSize (max attr.queueLength (max attr.maxThreshold 1) * elemSize)
  have hmir' : max attr.maxThreshold 1 - 1 + attr.offsets pageSize elemSize ≤
      (max attr.maxThreshold 1 - 1 + attr.offsets pageSize elemSize) * elemSize := Nat.le_mul_of_pos_right _ hE
  have hdiv : attr.mirrorBytes pageSize elemSize / elemSize ≤ attr.mirrorBytes pageSize elemSize := Nat.div_le_self _ _
  have hdiv' := (Nat.le_div_iff_mul_le hE).2 hoff
  have hint : Int.bmod (attr.numChannels : Int) (2 ^ 32) = attr.numChannels := by
    rw [Int.bmod_eq_of_le (by omega) (by omega)]
  -- nothing wraps, as the mirror has room for the offsets
  have hoffsets : u64 (attr.baseOffset % pageSize / elemSize +
      u64 (sub64 attr.numChannels 1 * (attr.chanOffset / elemSize))) = attr.offsets pageSize elemSize := by
    have hlt1 : (attr.numChannels - 1) * (attr.chanOffset / elemSize) < 2 ^ 64 := by
      unfold chanElements at hdef
      omega
    have hlt2 : attr.baseOffset % pageSize / elemSize + (attr.numChannels - 1) * (attr.chanOffset / elemSize) < 2 ^ 64 := by
      unfold chanElements baseElements at hdef
      omega
    have hsub : sub64 attr.numChannels 1 = attr.numChannels - 1 := sub64_of_le hpos (hlt.trans (by norm_num))
    rw [hsub, u64_of_lt hlt1, u64_of_lt hlt2]
    rfl
  have hmbs : MirrorBufferSet.create pageSize (u64 (max attr.queueLength (max attr.maxThreshold 1) * elemSize))
      (u64 (u64 (max attr.maxThreshold 1 - 1 + attr.offsets pageSize elemSize) * elemSize)) attr.numChannels =
      ⟨attr.bufferBytes pageSize elemSize, attr.mirrorBytes pageSize elemSize, attr.numChannels⟩ := by
    unfold bufferBytes mirrorBytes at hbytes ⊢
    unfold MirrorBufferSet.create
    rw [u64_of_lt (show max attr.queueLength (max attr.maxThreshold 1) * elemSize < 2 ^ 64 by omega),
      u64_of_lt (show max attr.maxThreshold 1 - 1 + attr.offsets pageSize elemSize < 2 ^ 64 by omega),
      u64_of_lt (show (max attr.maxThreshold 1 - 1 + attr.offsets pageSize elemSize) * elemSize < 2 ^ 64 by omega),
      roundUp_eq (by omega), roundUp_eq (by omega), hint]
  unfold ThresholdQueueBase.create ThresholdQueueBase.allocateMirrored
  dsimp only
  rw [hoffsets, Nat.max_assoc attr.maxThreshold 1 1, Nat.max_self, Nat.max_assoc attr.queueLength, Nat.max_self, hmbs,
    sub64_of_le (by show _ ≤ attr.mirrorBytes pageSize elemSize / elemSize + 1; omega)
      (by show attr.mirrorBytes pageSize elemSize / elemSize + 1 < _; omega)]
  rfl

/-! ### Where the channels start -/

/-- The queue that the constructor makes. -/
theorem numBytes_eq (h : attr.Sized pageSize elemSize) :
    MirrorBufferSet.numBytes ⟨attr.bufferBytes pageSize elemSize, attr.mirrorBytes pageSize elemSize, attr.numChannels⟩ =
      (attr.bufferBytes pageSize elemSize + attr.mirrorBytes pageSize elemSize) * attr.numChannels := by
  have hbytes := h.bytes_le
  have hlt := h.bytes_lt
  unfold MirrorBufferSet.numBytes
  dsimp only
  rw [u64_of_lt (hbytes.trans (by norm_num)), ← Int.natCast_mul, Int.emod_eq_of_lt (by omega) (by omega), Int.toNat_natCast]

variable (block : Nat → Byte) {c z : Nat}

/-- A channel starts in its own buffer, moved on by the offsets and back by what is lost. -/
theorem ptr_add_lost (h : attr.Sized pageSize elemSize) (hc : c < attr.numChannels) :
    (ThresholdQueueBase.create pageSize block elemSize attr).ptr c 0 + attr.lost pageSize elemSize c =
      c * (attr.bufferBytes pageSize elemSize + attr.mirrorBytes pageSize elemSize) + attr.moved pageSize elemSize c := by
  rw [h.create_eq]
  unfold ThresholdQueueBase.ptr lost moved
  dsimp only
  rw [Nat.add_zero]
  by_cases hc0 : c = 0
  · subst hc0
    simp
  · have hbytes := h.bytes_le
    have hE := h.elemSize_pos
    have hoff := attr.offsets_le pageSize elemSize
    have hlen : attr.length pageSize elemSize * elemSize + attr.bufferBytes pageSize elemSize % elemSize =
      attr.bufferBytes pageSize elemSize := Nat.div_add_mod' _ _
    have hmir := Nat.div_add_mod' (attr.mirrorBytes pageSize elemSize) elemSize
    have hlen' : attr.length pageSize elemSize ≤ attr.bufferBytes pageSize elemSize := Nat.div_le_self _ _
    have hmir' : attr.mirrorBytes pageSize elemSize / elemSize ≤ attr.mirrorBytes pageSize elemSize := Nat.div_le_self _ _
    have hchan : attr.chanElements elemSize ≤ attr.mirrorBytes pageSize elemSize := by
      refine (Nat.le_mul_of_pos_left _ (show 0 < attr.numChannels - 1 by omega)).trans ?_
      refine (Nat.le_add_left _ (attr.baseElements pageSize elemSize)).trans ?_
      exact (Nat.le_mul_of_pos_right _ hE).trans hoff
    rw [u64_of_lt (by omega), Nat.mul_assoc, Nat.add_mul, Nat.add_mul, Nat.add_assoc, ← Nat.mul_add,
      Nat.add_left_comm (c * _) (attr.baseElements pageSize elemSize), ← Nat.mul_add]
    congr 2
    omega

/-- The bytes of a channel end in its own buffer and mirror. -/
theorem span_le (h : attr.Sized pageSize elemSize) (hc : c < attr.numChannels) :
    attr.moved pageSize elemSize c - attr.lost pageSize elemSize c +
      (ThresholdQueueBase.create pageSize block elemSize attr).span ≤
        attr.bufferBytes pageSize elemSize + attr.mirrorBytes pageSize elemSize := by
  have hone := h.one_le_threshold
  have hthreshold := h.threshold_le
  have hmoved := h.moved_le hc
  have hlen : attr.length pageSize elemSize * elemSize ≤ attr.bufferBytes pageSize elemSize := Nat.div_mul_le_self _ _
  rw [Nat.add_mul] at hthreshold
  rw [h.create_eq]
  unfold ThresholdQueueBase.span
  dsimp only
  rw [Nat.add_sub_assoc hone, Nat.add_mul]
  omega

/-- A byte of a channel that starts in its own buffer. -/
theorem loc_eq (h : attr.Sized pageSize elemSize) (hc : c < attr.numChannels)
    (hle : attr.lost pageSize elemSize c ≤ attr.moved pageSize elemSize c)
    (hz : z < (ThresholdQueueBase.create pageSize block elemSize attr).span) :
    (ThresholdQueueBase.create pageSize block elemSize attr).loc c z =
      c * attr.bufferBytes pageSize elemSize +
        if attr.moved pageSize elemSize c - attr.lost pageSize elemSize c + z < attr.bufferBytes pageSize elemSize then
          attr.moved pageSize elemSize c - attr.lost pageSize elemSize c + z
        else attr.moved pageSize elemSize c - attr.lost pageSize elemSize c + z - attr.bufferBytes pageSize elemSize := by
  have hptr := h.ptr_add_lost block hc
  have hspan := h.span_le block hc
  have hplace (a : Nat) : (ThresholdQueueBase.create pageSize block elemSize attr).place a =
      MirrorBufferSet.place ⟨attr.bufferBytes pageSize elemSize, attr.mirrorBytes pageSize elemSize, attr.numChannels⟩
        a := by
    rw [h.create_eq]
    rfl
  have haddr : (ThresholdQueueBase.create pageSize block elemSize attr).ptr c 0 + z =
      c * (attr.bufferBytes pageSize elemSize + attr.mirrorBytes pageSize elemSize) +
        (attr.moved pageSize elemSize c - attr.lost pageSize elemSize c + z) := by omega
  unfold ThresholdQueueBase.loc
  rw [hplace, haddr]
  unfold MirrorBufferSet.place
  dsimp only
  rw [Nat.mul_add_mod_self_right, Nat.mod_eq_of_lt (by omega), Nat.mul_comm c, Nat.mul_add_div (by omega),
    Nat.div_eq_of_lt (by omega), Nat.add_zero]

private theorem inside (h : attr.Sized pageSize elemSize) (hc : c < attr.numChannels)
    (hle : attr.lost pageSize elemSize c ≤ attr.moved pageSize elemSize c) :
    (ThresholdQueueBase.create pageSize block elemSize attr).ptr c 0 +
      (ThresholdQueueBase.create pageSize block elemSize attr).span ≤
        (attr.bufferBytes pageSize elemSize + attr.mirrorBytes pageSize elemSize) * attr.numChannels := by
  have hptr := h.ptr_add_lost block hc
  have hspan := h.span_le block hc
  have := Nat.mul_le_mul_right (attr.bufferBytes pageSize elemSize + attr.mirrorBytes pageSize elemSize)
    (show c + 1 ≤ attr.numChannels from hc)
  rw [Nat.add_mul, Nat.one_mul, Nat.mul_comm attr.numChannels] at this
  omega

/-! ### The layout -/

theorem extent_eq (h : attr.Sized pageSize elemSize) : (ThresholdQueueBase.create pageSize block elemSize attr).extent =
    (attr.bufferBytes pageSize elemSize + attr.mirrorBytes pageSize elemSize) * attr.numChannels := by
  rw [h.create_eq]
  exact h.numBytes_eq

/-- What does not depend on the place of the channels. -/
theorem laid_of (h : attr.Sized pageSize elemSize)
    (hinside : ∀ c < attr.numChannels, (ThresholdQueueBase.create pageSize block elemSize attr).ptr c 0 +
      (ThresholdQueueBase.create pageSize block elemSize attr).span ≤
        (attr.bufferBytes pageSize elemSize + attr.mirrorBytes pageSize elemSize) * attr.numChannels)
    (hapart : ∀ c < attr.numChannels, ∀ c' < attr.numChannels,
      ∀ z < (ThresholdQueueBase.create pageSize block elemSize attr).span,
      ∀ z' < (ThresholdQueueBase.create pageSize block elemSize attr).span,
      (ThresholdQueueBase.create pageSize block elemSize attr).loc c z =
        (ThresholdQueueBase.create pageSize block elemSize attr).loc c' z' →
      c = c' ∧ z % (attr.length pageSize elemSize * elemSize) = z' % (attr.length pageSize elemSize * elemSize))
    (hmirrored : ∀ c < attr.numChannels, ∀ z < (ThresholdQueueBase.create pageSize block elemSize attr).span,
      ∀ z' < (ThresholdQueueBase.create pageSize block elemSize attr).span,
      z % (attr.length pageSize elemSize * elemSize) = z' % (attr.length pageSize elemSize * elemSize) →
      (ThresholdQueueBase.create pageSize block elemSize attr).loc c z =
        (ThresholdQueueBase.create pageSize block elemSize attr).loc c z') :
    Laid (ThresholdQueueBase.create pageSize block elemSize attr) := by
  have hring : (ThresholdQueueBase.create pageSize block elemSize attr).ring = attr.length pageSize elemSize * elemSize := by
    rw [h.create_eq]
    rfl
  exact {
    elementSize_pos := h.elemSize_pos
    one_le_maxThreshold := by rw [h.create_eq]; exact h.one_le_threshold
    maxThreshold_le := by rw [h.create_eq]; exact Nat.min_le_right _ _
    inside := by rw [h.extent_eq block]; exact hinside
    apart := by rw [hring]; exact hapart
    mirrored := by rw [hring]; exact fun _ => hmirrored
    plain := by
      rw [h.create_eq]
      intro hnone
      cases hnone }

private theorem span_eq (h : attr.Sized pageSize elemSize) : (ThresholdQueueBase.create pageSize block elemSize attr).span =
    attr.length pageSize elemSize * elemSize + (attr.threshold pageSize elemSize - 1) * elemSize := by
  have hone := h.one_le_threshold
  rw [h.create_eq]
  unfold ThresholdQueueBase.span
  dsimp only
  rw [Nat.add_sub_assoc hone, Nat.add_mul]

/-- The elements fill the buffers, and each channel has its mirror in its own buffer. -/
theorem laid_of_dvd (h : attr.Sized pageSize elemSize) (hdvd : elemSize ∣ attr.bufferBytes pageSize elemSize)
    (hin : ∀ c < attr.numChannels, attr.InBuffer pageSize elemSize c) :
    Laid (ThresholdQueueBase.create pageSize block elemSize attr) := by
  have hring : attr.length pageSize elemSize * elemSize = attr.bufferBytes pageSize elemSize := Nat.div_mul_cancel hdvd
  have hpos : 0 < attr.bufferBytes pageSize elemSize := by
    rw [← hring]
    exact Nat.mul_pos h.length_pos h.elemSize_pos
  have hspan := h.span_eq block
  have hloc {c z : Nat} (hc : c < attr.numChannels)
      (hz : z < (ThresholdQueueBase.create pageSize block elemSize attr).span) :
      (ThresholdQueueBase.create pageSize block elemSize attr).loc c z = c * attr.bufferBytes pageSize elemSize +
        (attr.moved pageSize elemSize c - attr.lost pageSize elemSize c + z) % attr.bufferBytes pageSize elemSize := by
    obtain ⟨hle, hend⟩ := hin c hc
    rw [h.loc_eq block hc hle hz, mod_of_lt_two_mul (by omega)]
  refine h.laid_of block (fun c hc => h.inside block hc (hin c hc).1) (fun c hc c' hc' z hz z' hz' he => ?_)
    fun c hc z hz z' hz' he => ?_
  · rw [hloc hc hz, hloc hc' hz'] at he
    have hmod := Nat.mod_lt (attr.moved pageSize elemSize c - attr.lost pageSize elemSize c + z) hpos
    have hmod' := Nat.mod_lt (attr.moved pageSize elemSize c' - attr.lost pageSize elemSize c' + z') hpos
    by_cases hcc : c = c'
    · subst hcc
      rw [hring]
      exact ⟨rfl, Nat.ModEq.add_left_cancel' _ (Nat.add_left_cancel he)⟩
    · have := stride_disjoint hmod hcc
      rw [Nat.add_mul, Nat.one_mul] at this
      omega
  · rw [hring] at he
    rw [hloc hc hz, hloc hc hz', Nat.add_mod, he, ← Nat.add_mod]

/-- Without a mirror and without an offset, the bytes of the channels follow each other. -/
theorem laid_of_mirrorBytes (h : attr.Sized pageSize elemSize) (hmirror : attr.mirrorBytes pageSize elemSize = 0) :
    Laid (ThresholdQueueBase.create pageSize block elemSize attr) := by
  have hthreshold := h.threshold_le
  have hoff := attr.offsets_le pageSize elemSize
  have hE := h.elemSize_pos
  have hone := h.one_le_threshold
  have hlen := Nat.div_add_mod' (attr.bufferBytes pageSize elemSize) elemSize
  -- without a mirror the threshold is one element, so that no region is behind the end of the ring
  have hthr : attr.threshold pageSize elemSize - 1 = 0 := by
    rw [hmirror, Nat.add_mul] at hthreshold
    have : (attr.threshold pageSize elemSize - 1) * elemSize = 0 := by omega
    rcases Nat.mul_eq_zero.1 this with h0 | h0
    · exact h0
    · omega
  have hoffsets : attr.offsets pageSize elemSize = 0 := by
    rw [hmirror] at hoff
    rcases Nat.mul_eq_zero.1 (Nat.le_zero.1 hoff) with h0 | h0
    · exact h0
    · omega
  have hspan := h.span_eq block
  rw [hthr, Nat.zero_mul, Nat.add_zero] at hspan
  have hmoved {c : Nat} (hc : c < attr.numChannels) : attr.moved pageSize elemSize c = 0 := by
    have := h.moved_le hc
    rw [hoffsets, Nat.zero_mul] at this
    omega
  have hptr {c : Nat} (hc : c < attr.numChannels) : (ThresholdQueueBase.create pageSize block elemSize attr).ptr c 0 =
      c * (attr.length pageSize elemSize * elemSize) := by
    have hptr := h.ptr_add_lost block hc
    have hlost : attr.lost pageSize elemSize c = c * (attr.bufferBytes pageSize elemSize % elemSize) := by
      unfold lost
      rw [hmirror, Nat.zero_mod, Nat.add_zero]
    rw [hmoved hc, hlost, hmirror, Nat.add_zero, Nat.add_zero, ← hlen, Nat.mul_add] at hptr
    rw [hlen] at hptr
    exact Nat.add_right_cancel hptr
  have hloc {c : Nat} (hc : c < attr.numChannels) (z : Nat) :
      (ThresholdQueueBase.create pageSize block elemSize attr).loc c z =
        c * (attr.length pageSize elemSize * elemSize) + z := by
    have hplace (a : Nat) : (ThresholdQueueBase.create pageSize block elemSize attr).place a = a := by
      have hB : 0 < attr.bufferBytes pageSize elemSize := by
        have := Nat.mul_pos h.length_pos hE
        unfold length at this
        omega
      rw [h.create_eq]
      show MirrorBufferSet.place ⟨_, attr.mirrorBytes pageSize elemSize, _⟩ a = a
      unfold MirrorBufferSet.place
      dsimp only
      rw [hmirror, Nat.add_zero, if_pos (Nat.mod_lt _ hB), Nat.div_add_mod']
    unfold ThresholdQueueBase.loc
    rw [hplace, hptr hc]
  refine h.laid_of block (fun c hc => ?_) (fun c hc c' hc' z hz z' hz' he => ?_) fun c hc z hz z' hz' he => ?_
  · have hle : attr.length pageSize elemSize * elemSize ≤ attr.bufferBytes pageSize elemSize := Nat.div_mul_le_self _ _
    have := Nat.mul_le_mul (show c + 1 ≤ attr.numChannels from hc) hle
    rw [Nat.add_mul, Nat.one_mul] at this
    rw [hptr hc, hspan, hmirror, Nat.add_zero, Nat.mul_comm (attr.bufferBytes pageSize elemSize)]
    exact this
  · rw [hloc hc, hloc hc'] at he
    rw [hspan] at hz hz'
    by_cases hcc : c = c'
    · subst hcc
      rw [Nat.add_left_cancel he]
      exact ⟨rfl, rfl⟩
    · have := stride_disjoint hz hcc
      rw [Nat.add_mul, Nat.one_mul] at this
      omega
  · rw [hspan] at hz hz'
    rw [Nat.mod_eq_of_lt hz, Nat.mod_eq_of_lt hz'] at he
    rw [he]

/-- Without a mirror, channels that start in their own buffers do not meet. -/
theorem loc_ne (h : attr.Sized pageSize elemSize) (hthr : attr.threshold pageSize elemSize = 1)
    (hle : ∀ c < attr.numChannels, attr.lost pageSize elemSize c ≤ attr.moved pageSize elemSize c) {c c' z z' : Nat}
    (hc' : c' < attr.numChannels) (hlt : c < c')
    (hz : z < (ThresholdQueueBase.create pageSize block elemSize attr).span)
    (hz' : z' < (ThresholdQueueBase.create pageSize block elemSize attr).span) :
    (ThresholdQueueBase.create pageSize block elemSize attr).loc c z ≠
      (ThresholdQueueBase.create pageSize block elemSize attr).loc c' z' := by
  have hlen : attr.length pageSize elemSize * elemSize ≤ attr.bufferBytes pageSize elemSize := Nat.div_mul_le_self _ _
  have hspan := h.span_eq block
  rw [hthr, Nat.sub_self, Nat.zero_mul, Nat.add_zero] at hspan
  have hmul : c' * attr.bufferBytes pageSize elemSize =
      c * attr.bufferBytes pageSize elemSize + (c' - c) * attr.bufferBytes pageSize elemSize := by
    rw [← Nat.add_mul, Nat.add_sub_cancel' hlt.le]
  have hdiff : attr.bufferBytes pageSize elemSize ≤ (c' - c) * attr.bufferBytes pageSize elemSize :=
    Nat.le_mul_of_pos_left _ (by omega)
  rw [h.loc_eq block (hlt.trans hc') (hle c (hlt.trans hc')) hz, h.loc_eq block hc' (hle c' hc') hz', hmul]
  have hc0 := hle c (hlt.trans hc')
  have hc1 := hle c' hc'
  by_cases hgrows : attr.bufferBytes pageSize elemSize % elemSize + attr.mirrorBytes pageSize elemSize % elemSize ≤
      attr.chanElements elemSize * elemSize
  · -- the channels start further and further on in their buffers
    have hoff : attr.moved pageSize elemSize c - attr.lost pageSize elemSize c ≤
        attr.moved pageSize elemSize c' - attr.lost pageSize elemSize c' := by
      have hsub (c : Nat) : attr.moved pageSize elemSize c - attr.lost pageSize elemSize c =
          attr.baseElements pageSize elemSize + c * (attr.chanElements elemSize * elemSize -
            (attr.bufferBytes pageSize elemSize % elemSize + attr.mirrorBytes pageSize elemSize % elemSize)) := by
        unfold moved lost
        rw [Nat.mul_sub, Nat.add_sub_assoc (Nat.mul_le_mul_left _ hgrows)]
      rw [hsub, hsub]
      exact Nat.add_le_add_left (Nat.mul_le_mul_right _ hlt.le) _
    split <;> split <;> omega
  · -- they start before the end of the first page
    have hoff : attr.moved pageSize elemSize c ≤ attr.lost pageSize elemSize c + attr.baseElements pageSize elemSize := by
      have := Nat.mul_le_mul_left c (Nat.le_of_not_le hgrows)
      unfold moved lost
      omega
    have hbase : attr.baseElements pageSize elemSize < attr.bufferBytes pageSize elemSize := by
      have hB : 0 < attr.bufferBytes pageSize elemSize := by
        have := Nat.mul_pos h.length_pos h.elemSize_pos
        omega
      calc attr.baseElements pageSize elemSize ≤ attr.baseOffset % pageSize := Nat.div_le_self _ _
        _ < pageSize := Nat.mod_lt _ h.pageSize_pos
        _ ≤ attr.bufferBytes pageSize elemSize := Nat.le_of_dvd hB (dvd_pages h.pageSize_pos _)
    split <;> split <;> omega

private theorem laid_of_threshold (h : attr.Sized pageSize elemSize) (hthr : attr.threshold pageSize elemSize = 1)
    (hle : ∀ c < attr.numChannels, attr.lost pageSize elemSize c ≤ attr.moved pageSize elemSize c) :
    Laid (ThresholdQueueBase.create pageSize block elemSize attr) := by
  have hlen : attr.length pageSize elemSize * elemSize ≤ attr.bufferBytes pageSize elemSize := Nat.div_mul_le_self _ _
  have hspan := h.span_eq block
  rw [hthr, Nat.sub_self, Nat.zero_mul, Nat.add_zero] at hspan
  refine h.laid_of block (fun c hc => h.inside block hc (hle c hc)) (fun c hc c' hc' z hz z' hz' he => ?_)
    fun c hc z hz z' hz' he => ?_
  · rcases Nat.lt_trichotomy c c' with hlt | hcc | hlt
    · exact absurd he (h.loc_ne block hthr hle hc' hlt hz hz')
    · subst hcc
      refine ⟨rfl, ?_⟩
      rw [h.loc_eq block hc (hle c hc) hz, h.loc_eq block hc (hle c hc) hz'] at he
      congr 1
      split at he <;> split at he <;> omega
    · exact absurd he.symm (h.loc_ne block hthr hle hc hlt hz' hz)
  · rw [hspan] at hz hz'
    rw [Nat.mod_eq_of_lt hz, Nat.mod_eq_of_lt hz'] at he
    rw [he]

private theorem laid (h : attr.Sized pageSize elemSize) (hplaced : attr.Placed pageSize elemSize) :
    Laid (ThresholdQueueBase.create pageSize block elemSize attr) := by
  rcases hplaced with ⟨hdvd, hin⟩ | ⟨hthr, hmirror | hle⟩
  · exact h.laid_of_dvd block hdvd hin
  · exact h.laid_of_mirrorBytes block hmirror
  · exact h.laid_of_threshold block hthr hle

end Sized

end ThresholdQueueAttr

/-- The queue on `malloc`: a block of distinct bytes, the channels one after the other. -/
theorem laid_plain (block : Nat → Byte) {elementSize queueLen maxThresh numChans : Nat} (helem : 0 < elementSize)
    (hone : 1 ≤ maxThresh) (hle : maxThresh ≤ queueLen)
    (hsize : (queueLen + maxThresh - 1) * numChans * elementSize < 2 ^ 64) (hchans : 0 < numChans) :
    Laid (ThresholdQueueBase.allocatePlain block elementSize queueLen maxThresh numChans) := by
  have hstride : (queueLen + maxThresh - 1) * numChans < 2 ^ 64 := (Nat.le_mul_of_pos_right _ helem).trans_lt hsize
  have hcreate : ThresholdQueueBase.allocatePlain block elementSize queueLen maxThresh numChans =
      ⟨elementSize, queueLen, maxThresh, numChans, queueLen + maxThresh - 1, none, 0, 0, 0, block⟩ := by
    unfold ThresholdQueueBase.allocatePlain
    dsimp only
    rw [Nat.max_eq_left hone, Nat.max_eq_left hle, u64_of_lt ((Nat.le_mul_of_pos_right _ hchans).trans_lt hstride)]
  rw [hcreate]
  obtain ⟨S, hS⟩ : ∃ S, S = queueLen + maxThresh - 1 := ⟨_, rfl⟩
  rw [← hS] at hsize hstride ⊢
  have hptr (c : Nat) :
      (⟨elementSize, queueLen, maxThresh, numChans, S, none, 0, 0, 0, block⟩ : ThresholdQueueBase).ptr c 0 =
        c * (S * elementSize) := by
    unfold ThresholdQueueBase.ptr
    dsimp only
    rw [Nat.zero_add, Nat.add_zero, Nat.mul_assoc]
  have hspan : (⟨elementSize, queueLen, maxThresh, numChans, S, none, 0, 0, 0, block⟩ : ThresholdQueueBase).span =
      S * elementSize := by rw [hS]; rfl
  have hextent : (⟨elementSize, queueLen, maxThresh, numChans, S, none, 0, 0, 0, block⟩ : ThresholdQueueBase).extent =
      numChans * (S * elementSize) := by
    show u64 (u64 (S * numChans) * elementSize) = _
    rw [u64_of_lt hstride, u64_of_lt hsize, Nat.mul_right_comm, Nat.mul_comm]
  refine ⟨helem, hone, hle, fun c hc => ?_, fun c hc c' hc' z hz z' hz' he => ?_, fun hsome => (by cases hsome),
    fun _ => ⟨rfl, hS⟩⟩
  · rw [hptr, hspan, hextent]
    have := Nat.mul_le_mul_right (S * elementSize) (show c + 1 ≤ numChans from hc)
    rwa [Nat.add_mul, Nat.one_mul] at this
  · rw [hspan] at hz hz'
    unfold ThresholdQueueBase.loc at he
    rw [hptr, hptr] at he
    replace he : c * (S * elementSize) + z = c' * (S * elementSize) + z' := he
    by_cases hcc : c = c'
    · subst hcc
      rw [Nat.add_left_cancel he]
      exact ⟨rfl, rfl⟩
    · have := stride_disjoint hz hcc
      rw [Nat.add_mul, Nat.one_mul] at this
      omega

/-! ### The elements that are delivered -/

namespace Fifo

/-- Every byte that is enqueued is written. -/
def Written (F : Fifo) : List Act → Prop
  | [] => True
  | .put thresh chans w count :: acts =>
    (∀ c < F.numChannels, c ∈ chans ∧ ∀ i < count * F.elementSize, w c i ≠ none) ∧
      Written (F.next (.put thresh chans w count)) acts
  | .take thresh chans count :: acts => Written (F.next (.take thresh chans count)) acts

private theorem numChannels_next (F : Fifo) (a : Act) : (F.next a).numChannels = F.numChannels := by
  unfold next
  split
  · cases a <;> rfl
  · rfl

private theorem written_next {F : Fifo} {a : Act} {acts : List Act} (hwritten : F.Written (a :: acts))
    (hall : ∀ c < F.numChannels, none ∉ F.channels c) :
    (F.next a).Written acts ∧ ∀ c < (F.next a).numChannels, none ∉ (F.next a).channels c := by
  rw [numChannels_next]
  cases a with
  | put thresh chans w count =>
    refine ⟨hwritten.2, fun c hc => ?_⟩
    unfold next
    split
    · show none ∉ F.channels c ++ (List.range (count * F.elementSize)).map fun i => if c ∈ chans then w c i else none
      rw [List.mem_append, not_or]
      refine ⟨hall c hc, fun hmem => ?_⟩
      obtain ⟨i, hi, hnone⟩ := List.mem_map.1 hmem
      obtain ⟨hmem, hw⟩ := hwritten.1 c hc
      rw [if_pos hmem] at hnone
      exact hw i (List.mem_range.1 hi) hnone
    · exact hall c hc
  | take thresh chans count =>
    refine ⟨hwritten, fun c hc => ?_⟩
    unfold next
    split
    · exact fun hmem => hall c hc (List.mem_of_mem_drop hmem)
    · exact hall c hc

private theorem Answers.eq {F : Fifo} {a : Act} {out out' : Out} (hallowed : F.Allowed a)
    (hall : ∀ c < F.numChannels, none ∉ F.channels c) (h : F.Answers a out) (h' : F.Answers a out') : out = out' := by
  unfold Answers at h h'
  by_cases hacc : F.Accepts a
  · rw [if_pos hacc] at h h'
    cases a with
    | put thresh chans w count => exact h.trans h'.symm
    | take thresh chans count =>
      obtain ⟨reads, rfl, hreads⟩ := h
      obtain ⟨reads', rfl, hreads'⟩ := h'
      congr 1
      exact forall₂_shows_eq hreads hreads' fun c hc hmem => hall c (hallowed.2.1 c hc) (List.mem_of_mem_take hmem)
  · rw [if_neg hacc] at h h'
    exact h.trans h'.symm

/-- What was written is delivered in one way. -/
theorem Follows.eq {F : Fifo} {acts : List Act} {outs outs' : List Out} (horderly : F.Orderly acts)
    (hwritten : F.Written acts)
    (hall : ∀ c < F.numChannels, none ∉ F.channels c) (h : F.Follows acts outs) (h' : F.Follows acts outs') :
      outs = outs' := by
  induction acts generalizing F outs outs' with
  | nil =>
    cases outs with
    | cons => cases h
    | nil =>
      cases outs' with
      | cons => cases h'
      | nil => rfl
  | cons a acts ih =>
    cases outs with
    | nil => cases h
    | cons out outs =>
      cases outs' with
      | nil => cases h'
      | cons out' outs' =>
        obtain ⟨hwritten', hall'⟩ := written_next hwritten hall
        rw [Answers.eq horderly.1 hall h.1 h'.1, ih horderly.2 hwritten' hall' h.2 h'.2]

end Fifo

/-! ### Main result -/

/-- The queue `q` on mirrored buffers agrees with the queue `m` on `malloc`. -/
structure Agrees (q m : ThresholdQueueBase) : Prop where
  mirror : ∀ c < q.numChannels, ∀ i < q.maxThreshold - 1, ∀ k < q.elementSize,
    q.place (q.ptr c i + k) = q.place (q.ptr c (i + q.queueLength) + k)
  apart : ∀ c < q.numChannels, ∀ c' < q.numChannels, c ≠ c' → ∀ i < q.queueLength + q.maxThreshold - 1,
    ∀ i' < q.queueLength + q.maxThreshold - 1, ∀ k < q.elementSize, ∀ k' < q.elementSize,
      q.place (q.ptr c i + k) ≠ q.place (q.ptr c' i' + k')
  inside : ∀ c < q.numChannels, ∀ idx, ∀ thresh ≤ q.maxThreshold,
    q.ptr c (idx % q.queueLength) + thresh * q.elementSize ≤ q.extent
  delivers : ∀ acts, (Fifo.create q.elementSize q.queueLength q.maxThreshold q.numChannels).Orderly acts →
    ∃ q' m' outs outs', q.run acts = .ok (q', outs) ∧ m.run acts = .ok (m', outs') ∧
      (Fifo.create q.elementSize q.queueLength q.maxThreshold q.numChannels).Follows acts outs ∧
      (Fifo.create q.elementSize q.queueLength q.maxThreshold q.numChannels).Follows acts outs' ∧
      ((Fifo.create q.elementSize q.queueLength q.maxThreshold q.numChannels).Written acts → outs = outs')

private theorem Laid.agrees {q m : ThresholdQueueBase} (h : Laid q) (hm : Laid m) (hmbs : q.mbs.isSome) (hhead : q.head = 0)
    (htail : q.tail = 0) (hhead' : m.head = 0) (htail' : m.tail = 0) (helem : m.elementSize = q.elementSize)
    (hlen : m.queueLength = q.queueLength) (hmax : m.maxThreshold = q.maxThreshold)
    (hnum : m.numChannels = q.numChannels) : Agrees q m := by
  have hbyte {q : ThresholdQueueBase} {n i k : Nat} (hi : i < n) (hk : k < q.elementSize) :
      i * q.elementSize + k < n * q.elementSize := by
    have := Nat.mul_le_mul_right q.elementSize (show i + 1 ≤ n from hi)
    rw [Nat.add_mul, Nat.one_mul] at this
    omega
  have hone := h.one_le_maxThreshold
  constructor
  · intro c hc i hi k hk
    rw [Holds.place_ptr, Holds.place_ptr]
    refine h.mirrored hmbs c hc _ (hbyte (by have := h.maxThreshold_le; omega) hk) _ (hbyte (by omega) hk) ?_
    rw [Nat.add_mul, Nat.add_right_comm]
    exact (Nat.add_mod_right _ _).symm
  · intro c hc c' hc' hne i hi i' hi' k hk k' hk' he
    rw [Holds.place_ptr, Holds.place_ptr] at he
    exact hne (h.apart c hc c' hc' _ (hbyte hi hk) _ (hbyte hi' hk') he).1
  · exact fun c hc idx thresh hthresh => h.ptr_le hc idx hthresh
  · intro acts horderly
    have hholds := hm.holds hhead' htail'
    rw [helem, hlen, hmax, hnum] at hholds
    obtain ⟨q', outs, hrun, hfollows, -⟩ := (h.holds hhead htail).run horderly
    obtain ⟨m', outs', hrun', hfollows', -⟩ := hholds.run horderly
    exact ⟨q', m', outs, outs', hrun, hrun', hfollows, hfollows', fun hwritten =>
      hfollows.eq horderly hwritten (fun _ _ => List.not_mem_nil) hfollows'⟩

/-- The queue on mirrored buffers agrees with the one on `malloc` of the same length and threshold, when the channels fit. -/
theorem create_agrees {pageSize elemSize : Nat} {attr : ThresholdQueueAttr} (h : attr.Sized pageSize elemSize)
    (hplaced : attr.Placed pageSize elemSize) (block block' : Nat → Byte) :
    Agrees (ThresholdQueueBase.create pageSize block elemSize attr)
      (ThresholdQueueBase.allocatePlain block' elemSize (ThresholdQueueBase.create pageSize block elemSize attr).queueLength
        (ThresholdQueueBase.create pageSize block elemSize attr).maxThreshold attr.numChannels) := by
  have hlaid := h.laid block hplaced
  have hone := hlaid.one_le_maxThreshold
  have hle := hlaid.maxThreshold_le
  have hsize : ((ThresholdQueueBase.create pageSize block elemSize attr).queueLength +
      (ThresholdQueueBase.create pageSize block elemSize attr).maxThreshold - 1) * attr.numChannels * elemSize < 2 ^ 64 := by
    have hspan := h.span_le block h.numChannels_pos
    have := Nat.mul_le_mul_right attr.numChannels ((Nat.le_add_left _ _).trans hspan)
    rw [Nat.mul_right_comm]
    exact this.trans_lt (h.bytes_lt.trans (by norm_num))
  have hplain := laid_plain block' h.elemSize_pos hone hle hsize h.numChannels_pos
  refine hlaid.agrees hplain ?_ rfl rfl rfl rfl rfl ?_ ?_ rfl
  · rfl
  · exact Nat.max_eq_left ((Nat.max_eq_left hone).le.trans hle)
  · exact Nat.max_eq_left hone

theorem create_agrees_two_channels :
    Agrees (ThresholdQueueBase.create 4096 (fun _ => 0) 8 ⟨100, 10, 2, 64, 64⟩)
      (ThresholdQueueBase.allocatePlain (fun _ => 0) 8
        (ThresholdQueueBase.create 4096 (fun _ => 0) 8 ⟨100, 10, 2, 64, 64⟩).queueLength
        (ThresholdQueueBase.create 4096 (fun _ => 0) 8 ⟨100, 10, 2, 64, 64⟩).maxThreshold 2) :=
  create_agrees ⟨by decide, by decide, by decide, by decide, by decide⟩ (by decide) _ _

/-- Elements of 24 bytes: the ring of `170` elements has `4080` bytes, and the mirror begins at byte `4096`. -/
theorem not_forall_create_agrees :
    ¬ ∀ pageSize elemSize (attr : ThresholdQueueAttr) (block block' : Nat → Byte), attr.Sized pageSize elemSize →
      Agrees (ThresholdQueueBase.create pageSize block elemSize attr)
        (ThresholdQueueBase.allocatePlain block' elemSize
          (ThresholdQueueBase.create pageSize block elemSize attr).queueLength
          (ThresholdQueueBase.create pageSize block elemSize attr).maxThreshold attr.numChannels) := by
  intro h
  have hagrees := h 4096 24 ⟨100, 10, 1, 0, 0⟩ (fun _ => 0) (fun _ => 0)
    ⟨by decide, by decide, by decide, by decide, by decide⟩
  have hmirror := hagrees.mirror 0 (by decide) 0 (by decide) 0 (by decide)
  revert hmirror
  decide

end ProcessNetwork.MirroredQueue
