import ProcessNetwork.Lib.Cells
import ProcessNetwork.RemoteQueue

/-!
# `CircularQueue` with any number of channels

The queue of `CircularQueue/CircularQueue.cc`.  A channel has `chanStride` cells: the ring of `queueLength` cells, one of
which stays free, and behind it `maxThreshold` cells into which a region that runs over the end of the ring continues.
The sizes and the indices are `unsigned`, and an access outside of the buffer, which has `size` cells, is a fault.

`Fifo` is what the queue is for: one list of bytes for each channel.  A cell that was enqueued and not written is `none`.
-/

namespace ProcessNetwork.CircularChannels

/-- How a call goes wrong: a failed `ASSERT`, a null pointer followed, an access outside of the buffer, or a loop that does
not end. -/
inductive RingFault
  | assertion (text : String)
  | nullPointer
  | outOfBounds
  | endless
  deriving DecidableEq

structure CircularQueue where
  queueLength : Nat
  maxThreshold : Nat
  numChannels : Nat
  chanStride : Nat
  head : Nat
  tail : Nat
  size : Nat
  buffer : Nat → Byte

/-- Each condition that the code asserts or relies on. -/
def check (b : Prop) [Decidable b] (fault : RingFault) : Except RingFault Unit := if b then .ok () else .error fault

private theorem check_eq_ok {b : Prop} [Decidable b] (h : b) (fault : RingFault) : check b fault = .ok () := if_pos h

namespace CircularQueue

def create (size maxThresh numChans : Nat) : CircularQueue :=
  if size < maxThresh then
    ⟨u32 (maxThresh + 1), maxThresh, numChans, u32 (2 * maxThresh + 1), 0, 0, u32 (u32 (2 * maxThresh + 1) * numChans),
      fun _ => 0⟩
  else
    ⟨u32 (size + 1), maxThresh, numChans, u32 (size + 1 + maxThresh), 0, 0, u32 (u32 (size + 1 + maxThresh) * numChans),
      fun _ => 0⟩

def freespace (q : CircularQueue) : Nat :=
  if q.tail ≤ q.head then sub32 (sub32 q.queueLength (q.head - q.tail)) 1 else q.tail - q.head - 1

def count (q : CircularQueue) : Nat :=
  if q.tail ≤ q.head then q.head - q.tail else u32 (q.head + sub32 q.queueLength q.tail)

/-- `n` cells from `a` on are in the buffer, and `a` is the index of a cell. -/
def InBuffer (q : CircularQueue) (a n : Nat) : Prop := a < q.size ∧ a + n ≤ q.size

instance (q : CircularQueue) (a n : Nat) : Decidable (q.InBuffer a n) := inferInstanceAs (Decidable (_ ∧ _))

def chanOff (q : CircularQueue) (chan : Nat) : Nat := u32 (chan * q.chanStride)

/-- The index of the pointer, unless it is null; the client may write `thresh` cells. -/
def getRawEnqueuePtr (q : CircularQueue) (thresh chan : Nat) : Except RingFault (Option Nat) := do
  check (chan < q.numChannels) (.assertion "chan < numChannels")
  if thresh ≤ q.freespace ∧ thresh ≤ q.maxThreshold then
    let ptr := u32 (q.head + q.chanOff chan)
    check (q.InBuffer ptr thresh) .outOfBounds
    .ok (some ptr)
  else .ok none

/-- A store through an enqueue pointer. -/
def store (q : CircularQueue) (dest : Nat) (bytes : List Byte) : CircularQueue :=
  { q with buffer := memcpy q.buffer dest (bytes.getD · 0) 0 bytes.length }

def enqueue (q : CircularQueue) (count : Nat) : Except RingFault CircularQueue := do
  check (count ≤ q.freespace) (.assertion "count <= Freespace()")
  let newHead := u32 (q.head + count)
  if q.queueLength ≤ newHead then
    let newHead := newHead - q.queueLength
    check (∀ chan < q.numChannels, q.InBuffer (q.chanOff chan) newHead ∧
      q.InBuffer (u32 (q.queueLength + q.chanOff chan)) newHead) .outOfBounds
    .ok { q with
      buffer := forChannels q.numChannels
        (fun chan m => memcpy m (q.chanOff chan) m (u32 (q.queueLength + q.chanOff chan)) newHead) q.buffer
      head := newHead }
  else .ok { q with head := newHead }

/-- A pointer for each of the writes, through which its bytes are stored at once; nothing when a pointer is null. -/
def writeAll (q : CircularQueue) (thresh : Nat) : List (Nat × List Byte) → Except RingFault (Option CircularQueue)
  | [] => .ok (some q)
  | (chan, bytes) :: writes => do
    match ← q.getRawEnqueuePtr thresh chan with
    | none => .ok none
    | some dest => writeAll (q.store dest bytes) thresh writes

/-- The channels that `RawEnqueue` and `RawDequeue` copy: the first one always. -/
def copied (numChans : Nat) : List Nat := 0 :: List.range' 1 (numChans - 1)

private theorem copied_eq_range {n : Nat} (h : 0 < n) : copied n = List.range n := by
  obtain ⟨n, rfl⟩ := Nat.exists_eq_succ_of_ne_zero (Nat.ne_of_gt h)
  rw [copied, List.range_eq_range', List.range'_succ, Nat.succ_sub_one]

/-- The loop of `RawEnqueue`, with a bound on the number of passes; channel `c` gets its bytes from `data + c * stride`
on. -/
def enqueueLoop (data : Nat → Byte) (count numChans stride : Nat) :
    Nat → CircularQueue → Nat → Except RingFault CircularQueue
  | fuel, q, numcopied =>
    if numcopied < count then
      match fuel with
      | 0 => .error .endless
      | fuel + 1 => do
        let numtocopy := min (count - numcopied) q.maxThreshold
        match ← q.writeAll numtocopy
          ((copied numChans).map fun c => (c, slice data (numcopied + c * stride) numtocopy)) with
        | none => .error .nullPointer
        | some q =>
          let q ← q.enqueue numtocopy
          enqueueLoop data count numChans stride fuel q (numcopied + numtocopy)
    else .ok q

/-- `RawEnqueue`, or nothing when it returns false. -/
def rawEnqueue (q : CircularQueue) (data : Nat → Byte) (count numChans stride : Nat) :
    Except RingFault (Option CircularQueue) := do
  check (numChans ≤ q.numChannels) (.assertion "numChans <= numChannels")
  if q.freespace < count then .ok none
  else
    let q ← enqueueLoop data count numChans stride count q 0
    .ok (some q)

/-- The index of the pointer, unless it is null, and the queue with the front of the channel copied behind the ring; the
client may read `thresh` cells. -/
def getRawDequeuePtr (q : CircularQueue) (thresh chan : Nat) : Except RingFault (Option (Nat × CircularQueue)) :=
  let chanOff := q.chanOff chan
  if thresh ≤ q.count ∧ thresh ≤ q.maxThreshold then do
    check (q.InBuffer (q.tail + chanOff) thresh) .outOfBounds
    if q.queueLength < u32 (q.tail + thresh) then
      let n := u32 (q.tail + thresh) - q.queueLength
      check (q.InBuffer (q.queueLength + chanOff) n ∧ q.InBuffer chanOff n) .outOfBounds
      .ok (some (q.tail + chanOff, { q with buffer := memcpy q.buffer (q.queueLength + chanOff) q.buffer chanOff n }))
    else .ok (some (q.tail + chanOff, q))
  else .ok none

def dequeue (q : CircularQueue) (count : Nat) : Except RingFault CircularQueue := do
  check (count ≤ q.count) (.assertion "count <= Count()")
  let newTail := u32 (q.tail + count)
  .ok { q with tail := if q.queueLength ≤ newTail then newTail - q.queueLength else newTail }

/-- A pointer for each of the channels, and what is read through it at once; nothing when a pointer is null. -/
def readAll (q : CircularQueue) (thresh : Nat) : List Nat → Except RingFault (Option (CircularQueue × List (List Byte)))
  | [] => .ok (some (q, []))
  | chan :: chans => do
    match ← q.getRawDequeuePtr thresh chan with
    | none => .ok none
    | some (src, q) =>
      match ← readAll q thresh chans with
      | none => .ok none
      | some (q', reads) => .ok (some (q', slice q.buffer src thresh :: reads))

/-- The loop of `RawDequeue`, with a bound on the number of passes, and the bytes that it copies for each of the channels:
byte `i` of channel `c` goes to `data[c * stride + i]`. -/
def dequeueLoop (count numChans : Nat) :
    Nat → CircularQueue → Nat → Except RingFault (CircularQueue × List (List Byte))
  | fuel, q, numcopied =>
    if numcopied < count then
      match fuel with
      | 0 => .error .endless
      | fuel + 1 => do
        let numtocopy := min (count - numcopied) q.maxThreshold
        match ← q.readAll numtocopy (copied numChans) with
        | none => .error .nullPointer
        | some (q, reads) =>
          let q ← q.dequeue numtocopy
          let (q, rest) ← dequeueLoop count numChans fuel q (numcopied + numtocopy)
          .ok (q, List.zipWith (· ++ ·) reads rest)
    else .ok (q, (copied numChans).map fun _ => [])

/-- `RawDequeue`, or nothing when it returns false. -/
def rawDequeue (q : CircularQueue) (count numChans : Nat) :
    Except RingFault (Option (CircularQueue × List (List Byte))) := do
  check (numChans ≤ q.numChannels) (.assertion "numChans <= numChannels")
  if q.count < count then .ok none
  else
    let r ← dequeueLoop count numChans count q 0
    .ok (some r)

/-- `Grow`; the copy buffer is zeroed, and channel `c` is copied to `newchanstride * c`. -/
def grow (q : CircularQueue) (queueLen maxThresh : Nat) : Except RingFault CircularQueue :=
  if queueLen ≤ q.queueLength ∧ maxThresh ≤ q.maxThreshold then .ok q
  else do
    let queueLen := max queueLen q.queueLength
    let maxThresh := max maxThresh q.maxThreshold
    let newchanstride := u32 (queueLen + 1 + maxThresh)
    let size := u32 (newchanstride * q.numChannels)
    let oldcount := q.count
    match ← q.rawDequeue oldcount q.numChannels with
    | none => .error (.assertion "RawDequeue(&copybuffer[0], oldcount, NumChannels(), newchanstride)")
    | some (_, bytes) =>
      check (∀ c < q.numChannels, newchanstride * c + oldcount ≤ size) .outOfBounds
      .ok
        { q with
          tail := 0
          queueLength := u32 (queueLen + 1)
          maxThreshold := maxThresh
          chanStride := newchanstride
          head := oldcount
          size := size
          buffer := fun a => (bytes.getD (a / newchanstride) []).getD (a % newchanstride) 0 }

def clear (q : CircularQueue) : CircularQueue := { q with head := 0, tail := 0 }

end CircularQueue

/-! ### Runs -/

/-- What a client does.  `put` asks for pointers with the threshold `thresh`, writes through each of them and enqueues;
`take` asks for pointers, reads through each of them and dequeues. -/
inductive Act
  | put (thresh : Nat) (writes : List (Nat × List Byte)) (count : Nat)
  | rawEnqueue (data : Nat → Byte) (count numChans stride : Nat)
  | take (thresh : Nat) (chans : List Nat) (count : Nat)
  | rawDequeue (count numChans : Nat)
  | grow (queueLen maxThresh : Nat)
  | clear

/-- What it gets: whether it got the pointers or the function returned true, and the bytes that it read of each channel. -/
inductive Out
  | refused
  | done
  | bytes (reads : List (List Byte))
  deriving DecidableEq

def act (q : CircularQueue) : Act → Except RingFault (CircularQueue × Out)
  | .put thresh writes count => do
    match ← q.writeAll thresh writes with
    | none => .ok (q, .refused)
    | some q =>
      let q ← q.enqueue count
      .ok (q, .done)
  | .rawEnqueue data count numChans stride => do
    match ← q.rawEnqueue data count numChans stride with
    | none => .ok (q, .refused)
    | some q => .ok (q, .done)
  | .take thresh chans count => do
    match ← q.readAll thresh chans with
    | none => .ok (q, .refused)
    | some (q, reads) =>
      let q ← q.dequeue count
      .ok (q, .bytes reads)
  | .rawDequeue count numChans => do
    match ← q.rawDequeue count numChans with
    | none => .ok (q, .refused)
    | some (q, reads) => .ok (q, .bytes reads)
  | .grow queueLen maxThresh => do
    let q ← q.grow queueLen maxThresh
    .ok (q, .done)
  | .clear => .ok (q.clear, .done)

def run (q : CircularQueue) : List Act → Except RingFault (CircularQueue × List Out)
  | [] => .ok (q, [])
  | a :: acts => do
    let (q, out) ← act q a
    let (q, outs) ← run q acts
    .ok (q, out :: outs)

/-! ### One queue of bytes for each channel -/

structure Fifo where
  capacity : Nat
  maxThreshold : Nat
  numChannels : Nat
  count : Nat
  channels : Nat → List (Option Byte)

namespace Fifo

def create (size maxThresh numChans : Nat) : Fifo := ⟨max size maxThresh, maxThresh, numChans, 0, fun _ => []⟩

/-- The region of `thresh` cells of channel `c` after the writes. -/
def written (thresh : Nat) (writes : List (Nat × List Byte)) (c : Nat) : List (Option Byte) :=
  writes.foldl (fun region w => if w.1 = c then w.2.map some ++ region.drop w.2.length else region)
    (List.replicate thresh none)

def Accepts (F : Fifo) : Act → Prop
  | .put thresh _ _ => thresh ≤ F.capacity - F.count ∧ thresh ≤ F.maxThreshold
  | .rawEnqueue _ count _ _ => count ≤ F.capacity - F.count
  | .take thresh _ _ => thresh ≤ F.count ∧ thresh ≤ F.maxThreshold
  | .rawDequeue count _ => count ≤ F.count
  | .grow _ _ | .clear => True

instance (F : Fifo) : ∀ a, Decidable (F.Accepts a)
  | .put _ _ _ | .take _ _ _ => inferInstanceAs (Decidable (_ ∧ _))
  | .rawEnqueue _ _ _ _ | .rawDequeue _ _ => inferInstanceAs (Decidable (_ ≤ _))
  | .grow _ _ | .clear => isTrue trivial

def append (F : Fifo) (n : Nat) (g : Nat → List (Option Byte)) : Fifo :=
  { F with count := F.count + n, channels := fun c => F.channels c ++ g c }

def drop (F : Fifo) (n : Nat) : Fifo := { F with count := F.count - n, channels := fun c => (F.channels c).drop n }

def accepted (F : Fifo) : Act → Fifo
  | .put thresh writes count => F.append count fun c => (written thresh writes c).take count
  | .rawEnqueue data count numChans stride =>
    F.append count fun c =>
      if c ∈ CircularQueue.copied numChans then (slice data (c * stride) count).map some else List.replicate count none
  | .take _ _ count | .rawDequeue count _ => F.drop count
  | .grow queueLen maxThresh =>
    if queueLen ≤ F.capacity + 1 ∧ maxThresh ≤ F.maxThreshold then F
    else { F with capacity := max queueLen (F.capacity + 1), maxThreshold := max maxThresh F.maxThreshold }
  | .clear => { F with count := 0, channels := fun _ => [] }

def next (F : Fifo) (a : Act) : Fifo := if F.Accepts a then F.accepted a else F

/-- What the client gets of an act. -/
def Answers (F : Fifo) (a : Act) (out : Out) : Prop :=
  if F.Accepts a then
    match a with
    | .take thresh chans _ =>
      ∃ reads, out = .bytes reads ∧ List.Forall₂ (fun bytes c => Shows bytes ((F.channels c).take thresh)) reads chans
    | .rawDequeue count numChans =>
      ∃ reads, out = .bytes reads ∧
        List.Forall₂ (fun bytes c => Shows bytes ((F.channels c).take count)) reads (CircularQueue.copied numChans)
    | _ => out = .done
  else out = .refused

/-- The acts are answered one after the other. -/
def Follows (F : Fifo) : List Act → List Out → Prop
  | a :: acts, out :: outs => F.Answers a out ∧ Follows (F.next a) acts outs
  | [], [] => True
  | _, _ => False

/-- What the client has to keep to: it writes and enqueues within its thresholds, and names channels that there are. -/
def Allowed (F : Fifo) : Act → Prop
  | .put thresh writes count =>
    writes ≠ [] ∧ (∀ w ∈ writes, w.1 < F.numChannels ∧ w.2.length ≤ thresh) ∧ count ≤ thresh
  | .rawEnqueue _ _ numChans _ | .rawDequeue _ numChans => numChans ≤ F.numChannels
  | .take thresh chans count => chans ≠ [] ∧ (∀ c ∈ chans, c < F.numChannels) ∧ count ≤ thresh
  | .grow _ _ | .clear => True

/-- The cells that the buffer needs. -/
def size (F : Fifo) : Nat := (F.capacity + 1 + F.maxThreshold) * F.numChannels

instance (F : Fifo) : ∀ a, Decidable (F.Allowed a)
  | .put _ _ _ | .take _ _ _ => inferInstanceAs (Decidable (_ ∧ _ ∧ _))
  | .rawEnqueue _ _ _ _ | .rawDequeue _ _ => inferInstanceAs (Decidable (_ ≤ _))
  | .grow _ _ | .clear => isTrue trivial

/-- The client keeps to what it has to. -/
def Orderly (F : Fifo) : List Act → Prop
  | [] => True
  | a :: acts => F.Allowed a ∧ Orderly (F.next a) acts

instance decidableOrderly : ∀ (acts : List Act) (F : Fifo), Decidable (F.Orderly acts)
  | [], _ => isTrue trivial
  | a :: acts, F =>
    have := decidableOrderly acts (F.next a)
    inferInstanceAs (Decidable (F.Allowed a ∧ (F.next a).Orderly acts))

/-- The buffer never needs `2 ^ 32` cells. -/
def Fits (F : Fifo) : List Act → Prop
  | [] => F.size < 2 ^ 32
  | a :: acts => F.size < 2 ^ 32 ∧ Fits (F.next a) acts

instance decidableFits : ∀ (acts : List Act) (F : Fifo), Decidable (F.Fits acts)
  | [], F => inferInstanceAs (Decidable (F.size < 2 ^ 32))
  | a :: acts, F =>
    have := decidableFits acts (F.next a)
    inferInstanceAs (Decidable (F.size < 2 ^ 32 ∧ (F.next a).Fits acts))

private theorem Fits.size {F : Fifo} {acts : List Act} (h : F.Fits acts) : F.size < 2 ^ 32 := by
  cases acts with
  | nil => exact h
  | cons a acts => exact h.1

private theorem length_written {thresh : Nat} {writes : List (Nat × List Byte)} (h : ∀ w ∈ writes, w.2.length ≤ thresh)
    (c : Nat) :
    (written thresh writes c).length = thresh := by
  have hfold (region : List (Option Byte)) (hregion : region.length = thresh) :
      (writes.foldl (fun region w => if w.1 = c then w.2.map some ++ region.drop w.2.length else region)
        region).length = thresh := by
    induction writes generalizing region with
    | nil => exact hregion
    | cons w writes ih =>
      rw [List.forall_mem_cons] at h
      refine ih h.2 _ ?_
      dsimp only
      split_ifs
      · have := h.1
        rw [List.length_append, List.length_map, List.length_drop]
        omega
      · exact hregion
  exact hfold _ (List.length_replicate ..)

end Fifo

/-! ### What the queue holds -/

structure Holds (q : CircularQueue) (F : Fifo) : Prop where
  queueLength : q.queueLength = F.capacity + 1
  maxThreshold : q.maxThreshold = F.maxThreshold
  numChannels : q.numChannels = F.numChannels
  maxThreshold_pos : 0 < F.maxThreshold
  numChannels_pos : 0 < F.numChannels
  chanStride : q.chanStride = q.queueLength + q.maxThreshold
  size : q.size = q.chanStride * q.numChannels
  size_lt : q.size < 2 ^ 32
  tail_lt : q.tail < q.queueLength
  count_le : F.count ≤ F.capacity
  head : q.head = (q.tail + F.count) % q.queueLength
  length : ∀ c < q.numChannels, (F.channels c).length = F.count
  cell : ∀ c < q.numChannels, ∀ i b, (F.channels c)[i]? = some (some b) →
    q.buffer (c * q.chanStride + (q.tail + i) % q.queueLength) = b

namespace Holds

variable {q : CircularQueue} {F : Fifo} {c n thresh : Nat}

/-- The cells of a channel are in the buffer. -/
theorem channel (h : Holds q F) (hc : c < q.numChannels) : c * q.chanStride + q.chanStride ≤ q.size := by
  have := Nat.mul_le_mul_right q.chanStride (show c + 1 ≤ q.numChannels from hc)
  rw [h.size, Nat.mul_comm q.chanStride]
  rwa [Nat.add_mul, Nat.one_mul] at this

private theorem chanOff (h : Holds q F) (hc : c < q.numChannels) : q.chanOff c = c * q.chanStride := by
  have := h.channel hc
  have := h.size_lt
  exact u32_of_lt (by omega)

private theorem chanStride_lt (h : Holds q F) : q.chanStride < 2 ^ 32 := by
  have := h.channel (c := 0) (by rw [h.numChannels]; exact h.numChannels_pos)
  have := h.size_lt
  omega

private theorem head_eq (h : Holds q F) :
    q.head = if q.tail + F.count < q.queueLength then q.tail + F.count else q.tail + F.count - q.queueLength := by
  have := h.tail_lt
  have := h.count_le
  have := h.queueLength
  rw [h.head, mod_of_lt_two_mul (by omega)]

private theorem head_lt (h : Holds q F) : q.head < q.queueLength := by
  rw [h.head]
  exact Nat.mod_lt _ (by have := h.tail_lt; omega)

private theorem count_eq (h : Holds q F) : q.count = F.count := by
  have hhead := h.head_eq
  have := h.tail_lt
  have := h.count_le
  have := h.queueLength
  have := h.chanStride_lt
  have := h.chanStride
  unfold CircularQueue.count
  split
  · split at hhead <;> omega
  · rw [sub32_of_le (by omega) (by omega), u32_of_lt (by split at hhead <;> omega)]
    split at hhead <;> omega

private theorem freespace_eq (h : Holds q F) : q.freespace = F.capacity - F.count := by
  have hhead := h.head_eq
  have := h.tail_lt
  have := h.count_le
  have := h.queueLength
  have := h.chanStride_lt
  have := h.chanStride
  unfold CircularQueue.freespace
  by_cases htail : q.tail ≤ q.head
  · have hlen : q.head - q.tail = F.count := by split at hhead <;> omega
    rw [if_pos htail, hlen, sub32_of_le (show F.count ≤ q.queueLength by omega) (by omega),
      sub32_of_le (by omega) (by omega)]
    omega
  · rw [if_neg htail]
    split at hhead <;> omega

/-- A cell of another channel is not in a region of this one. -/
theorem outside_of_ne {S c c' x y n : Nat} (hx : x < S) (hne : c' ≠ c) (hy : y + n ≤ S) :
    c' * S + x < c * S + y ∨ c * S + y + n ≤ c' * S + x := by
  have := stride_disjoint hx hne
  rw [Nat.add_mul, Nat.one_mul] at this
  omega

private theorem index_lt (h : Holds q F) (hc : c < q.numChannels) {i : Nat} {b : Byte}
    (hi : (F.channels c)[i]? = some (some b)) : i < F.count := by
  rw [← h.length c hc]
  exact (List.getElem?_eq_some_iff.1 hi).1

/-! ### Writing -/

theorem getRawEnqueuePtr (h : Holds q F) (hc : c < q.numChannels) (hfree : thresh ≤ F.capacity - F.count)
    (hmax : thresh ≤ F.maxThreshold) : q.getRawEnqueuePtr thresh c = .ok (some (c * q.chanStride + q.head)) := by
  have := h.channel hc
  have := h.size_lt
  have := h.head_lt
  have := h.chanStride
  have := h.queueLength
  have := h.maxThreshold
  have hptr : u32 (q.head + q.chanOff c) = c * q.chanStride + q.head := by
    rw [h.chanOff hc, Nat.add_comm, u32_of_lt (by omega)]
  unfold CircularQueue.getRawEnqueuePtr
  rw [check_eq_ok hc, h.freespace_eq, if_pos ⟨hfree, by omega⟩]
  show (check (q.InBuffer (u32 (q.head + q.chanOff c)) thresh) _ >>= fun _ => _) = _
  rw [hptr, check_eq_ok ⟨by omega, by omega⟩]
  rfl

/-- The cells from the head on, also those behind the ring, hold what is written of `g`. -/
def Region (q : CircularQueue) (g : Nat → List (Option Byte)) : Prop :=
  ∀ c < q.numChannels, ∀ (i : Nat) (b : Byte), (g c)[i]? = some (some b) → q.buffer (c * q.chanStride + (q.head + i)) = b

private theorem store (h : Holds q F) {bytes : List Byte} (hfree : bytes.length ≤ F.capacity - F.count)
    (hmax : bytes.length ≤ F.maxThreshold) : Holds (q.store (c * q.chanStride + q.head) bytes) F := by
  refine { h with cell := fun c' hc' i b hi => ?_ }
  have hlt := h.index_lt hc' hi
  have hhead := h.head_eq
  have := h.head_lt
  have := h.tail_lt
  have := h.count_le
  have := h.queueLength
  have := h.chanStride
  have := h.maxThreshold
  show memcpy q.buffer (c * q.chanStride + q.head) (bytes.getD · 0) 0 bytes.length
    (c' * q.chanStride + (q.tail + i) % q.queueLength) = b
  rw [memcpy_outside, h.cell c' hc' i b hi]
  have hmod := mod_of_lt_two_mul (show q.tail + i < 2 * q.queueLength by omega)
  by_cases hcc : c' = c
  · subst hcc
    rw [hmod]
    split <;> split at hhead <;> omega
  · exact outside_of_ne (by rw [hmod]; split <;> omega) hcc (by omega)

private theorem region_store (h : Holds q F) {bytes : List Byte} {g : Nat → List (Option Byte)} (hg : Region q g)
    (hlen : ∀ c, (g c).length = thresh) (hbytes : bytes.length ≤ thresh) (hmax : thresh ≤ F.maxThreshold) :
    Region (q.store (c * q.chanStride + q.head) bytes) fun c' =>
      if c = c' then bytes.map some ++ (g c').drop bytes.length else g c' := by
  intro c' hc' i b hi
  replace hi : (if c = c' then bytes.map some ++ (g c').drop bytes.length else g c')[i]? = some (some b) := hi
  have := h.head_lt
  have := h.chanStride
  have := h.maxThreshold
  show memcpy q.buffer (c * q.chanStride + q.head) (bytes.getD · 0) 0 bytes.length
    (c' * q.chanStride + (q.head + i)) = b
  by_cases hcc : c = c'
  · subst hcc
    rw [if_pos rfl] at hi
    rw [← Nat.add_assoc]
    by_cases hlt : i < bytes.length
    · rw [memcpy_inside hlt, Nat.zero_add]
      rw [List.getElem?_append_left (by simpa using hlt), List.getElem?_map, List.getElem?_eq_getElem hlt] at hi
      cases hi
      rw [List.getD_eq_getElem?_getD, List.getElem?_eq_getElem hlt, Option.getD_some]
    · rw [memcpy_outside (by omega), Nat.add_assoc]
      rw [List.getElem?_append_right (by simpa using hlt), List.length_map, List.getElem?_drop,
        show bytes.length + (i - bytes.length) = i by omega] at hi
      exact hg c hc' i b hi
  · rw [if_neg hcc] at hi
    have hi' := (List.getElem?_eq_some_iff.1 hi).1
    rw [hlen] at hi'
    rw [memcpy_outside (outside_of_ne (by omega) (Ne.symm hcc) (by omega))]
    exact hg c' hc' i b hi

private theorem writeAll (h : Holds q F) {writes : List (Nat × List Byte)}
    (hw : ∀ w ∈ writes, w.1 < q.numChannels ∧ w.2.length ≤ thresh) (hfree : thresh ≤ F.capacity - F.count)
    (hmax : thresh ≤ F.maxThreshold) {g : Nat → List (Option Byte)} (hg : Region q g)
    (hlen : ∀ c, (g c).length = thresh) :
    ∃ q', q.writeAll thresh writes = .ok (some q') ∧ Holds q' F ∧
      Region q' (fun c => writes.foldl (fun region w =>
        if w.1 = c then w.2.map some ++ region.drop w.2.length else region) (g c)) := by
  induction writes generalizing q g with
  | nil => exact ⟨q, rfl, h, hg⟩
  | cons w writes ih =>
    obtain ⟨chan, bytes⟩ := w
    rw [List.forall_mem_cons] at hw
    have hbytes : bytes.length ≤ thresh := hw.1.2
    have hregion := h.region_store (c := chan) hg hlen hbytes hmax
    have hlen' (c : Nat) :
        (if chan = c then bytes.map some ++ (g c).drop bytes.length else g c).length = thresh := by
      split_ifs
      · rw [List.length_append, List.length_map, List.length_drop, hlen]
        omega
      · exact hlen c
    have hstore := h.store (c := chan) (hbytes.trans hfree) (hbytes.trans hmax)
    obtain ⟨q', hq', hholds, hregion'⟩ := ih hstore hw.2 hregion hlen'
    refine ⟨q', ?_, hholds, hregion'⟩
    rw [CircularQueue.writeAll, h.getRawEnqueuePtr hw.1.1 hfree hmax]
    exact hq'

/-- `Enqueue` appends the first cells of the region to each channel. -/
theorem enqueue (h : Holds q F) {g : Nat → List (Option Byte)} (hg : Region q g) (hlen : ∀ c, (g c).length = thresh)
    (hn : n ≤ thresh) (hfree : thresh ≤ F.capacity - F.count) (hmax : thresh ≤ F.maxThreshold) :
    ∃ q', q.enqueue n = .ok q' ∧ Holds q' (F.append n fun c => (g c).take n) := by
  have hhead := h.head_eq
  have hheadlt := h.head_lt
  have ht := h.tail_lt
  have hcl := h.count_le
  have hql := h.queueLength
  have hS := h.chanStride
  have hM := h.maxThreshold
  have hS32 := h.chanStride_lt
  have hnew : u32 (q.head + n) = q.head + n := u32_of_lt (by omega)
  -- it is enough to know the new buffer at the cells of the contents and of the region
  have hholds {head : Nat} {buffer : Nat → Byte} (hhead' : head = (q.head + n) % q.queueLength)
      (hold : ∀ c < q.numChannels, ∀ i < F.count, buffer (c * q.chanStride + (q.tail + i) % q.queueLength) =
        q.buffer (c * q.chanStride + (q.tail + i) % q.queueLength))
      (hnew : ∀ c < q.numChannels, ∀ i < n, buffer (c * q.chanStride + (q.head + i) % q.queueLength) =
        q.buffer (c * q.chanStride + (q.head + i))) :
      Holds { q with head := head, buffer := buffer } (F.append n fun c => (g c).take n) := by
    refine ⟨h.queueLength, h.maxThreshold, h.numChannels, h.maxThreshold_pos, h.numChannels_pos, h.chanStride, h.size,
      h.size_lt, h.tail_lt, by show F.count + n ≤ F.capacity; omega, ?_, fun c hc => ?_, fun c hc i b hi => ?_⟩
    · show head = (q.tail + (F.count + n)) % q.queueLength
      rw [hhead', h.head, Nat.mod_add_mod, Nat.add_assoc]
    · show (F.channels c ++ (g c).take n).length = F.count + n
      rw [List.length_append, h.length c hc, List.length_take, hlen]
      omega
    · have hi : (F.channels c ++ (g c).take n)[i]? = some (some b) := hi
      show buffer (c * q.chanStride + (q.tail + i) % q.queueLength) = b
      by_cases hlt : i < F.count
      · rw [List.getElem?_append_left (by rw [h.length c hc]; exact hlt)] at hi
        rw [hold c hc i hlt]
        exact h.cell c hc i b hi
      · obtain ⟨j, rfl⟩ : ∃ j, i = F.count + j := ⟨i - F.count, by omega⟩
        rw [List.getElem?_append_right (by rw [h.length c hc]; omega), h.length c hc, Nat.add_sub_cancel_left,
          List.getElem?_take] at hi
        split_ifs at hi with hj
        have hcell := hnew c hc j hj
        rw [h.head, Nat.mod_add_mod, Nat.add_assoc, ← h.head] at hcell
        rw [hcell]
        exact hg c hc j b hi
  unfold CircularQueue.enqueue
  rw [check_eq_ok (by rw [h.freespace_eq]; omega), hnew]
  show ∃ q', (if q.queueLength ≤ q.head + n then _ else _) = _ ∧ _
  by_cases hwrap : q.queueLength ≤ q.head + n
  · obtain ⟨k, hk⟩ : ∃ k, k = q.head + n - q.queueLength := ⟨_, rfl⟩
    have hoff {c : Nat} (hc : c < q.numChannels) :
        q.chanOff c = c * q.chanStride ∧ u32 (q.queueLength + q.chanOff c) = c * q.chanStride + q.queueLength := by
      have := h.channel hc
      have := h.size_lt
      rw [h.chanOff hc, Nat.add_comm, u32_of_lt (by omega)]
      exact ⟨rfl, rfl⟩
    have hbounds : ∀ chan < q.numChannels, q.InBuffer (q.chanOff chan) k ∧
        q.InBuffer (u32 (q.queueLength + q.chanOff chan)) k := by
      intro c hc
      have := h.channel hc
      have := h.maxThreshold_pos
      rw [(hoff hc).2, (hoff hc).1]
      exact ⟨⟨by omega, by omega⟩, ⟨by omega, by omega⟩⟩
    have hcongr : forChannels q.numChannels
          (fun chan m => memcpy m (q.chanOff chan) m (u32 (q.queueLength + q.chanOff chan)) k) q.buffer =
        forChannels q.numChannels
          (fun chan m => memcpy m (chan * q.chanStride) m (chan * q.chanStride + q.queueLength) k) q.buffer :=
      forChannels_congr (fun c hc m => by rw [(hoff hc).2, (hoff hc).1]) q.buffer
    have hacts : ActsOnStride (α := Byte) q.chanStride
        (fun chan m => memcpy m (chan * q.chanStride) m (chan * q.chanStride + q.queueLength) k) := by
      constructor
      · intro c m a ha
        rw [Nat.add_mul, Nat.one_mul] at ha
        exact memcpy_outside (by omega)
      · intro c m m' hm x hx
        by_cases hxk : x < k
        · rw [memcpy_inside hxk, memcpy_inside hxk, Nat.add_assoc, hm _ (by omega)]
        · rw [memcpy_outside (by omega), memcpy_outside (by omega), hm x hx]
    have hcell {c x : Nat} (hc : c < q.numChannels) (hx : x < q.chanStride) :
        forChannels q.numChannels
          (fun chan m => memcpy m (q.chanOff chan) m (u32 (q.queueLength + q.chanOff chan)) k) q.buffer
          (c * q.chanStride + x) =
        if x < k then q.buffer (c * q.chanStride + (q.queueLength + x)) else q.buffer (c * q.chanStride + x) := by
      rw [hcongr, forChannels_stride hacts _ hx, if_pos hc]
      by_cases hxk : x < k
      · rw [memcpy_inside hxk, if_pos hxk, Nat.add_assoc]
      · rw [memcpy_outside (by omega), if_neg hxk]
    rw [if_pos hwrap, ← hk, check_eq_ok hbounds]
    refine ⟨_, rfl, hholds ?_ (fun c hc i hi => ?_) fun c hc i hi => ?_⟩
    · rw [mod_of_lt_two_mul (by omega), if_neg (by omega), hk]
    · have hmod := mod_of_lt_two_mul (show q.tail + i < 2 * q.queueLength by omega)
      rw [hcell hc (by rw [hmod]; split <;> omega), if_neg]
      rw [hmod]
      split <;> split at hhead <;> omega
    · have hmod := mod_of_lt_two_mul (show q.head + i < 2 * q.queueLength by omega)
      rw [hcell hc (by rw [hmod]; split <;> omega), hmod]
      split_ifs
      · omega
      · rfl
      · congr 2
        omega
      · omega
  · rw [if_neg hwrap]
    refine ⟨_, rfl, hholds ?_ (fun _ _ _ _ => rfl) fun c hc i hi => ?_⟩
    · rw [Nat.mod_eq_of_lt (by omega)]
    · rw [Nat.mod_eq_of_lt (by omega)]

/-! ### Reading -/

theorem getRawDequeuePtr (h : Holds q F) (hc : c < q.numChannels) (hn : thresh ≤ F.count) (hmax : thresh ≤ F.maxThreshold) :
    ∃ src q', q.getRawDequeuePtr thresh c = .ok (some (src, q')) ∧ Holds q' F ∧ q'.numChannels = q.numChannels ∧
      Shows (slice q'.buffer src thresh) ((F.channels c).take thresh) := by
  have hlen := h.length c hc
  have hch := h.channel hc
  have hs := h.size_lt
  have ht := h.tail_lt
  have hcl := h.count_le
  have hql := h.queueLength
  have hS := h.chanStride
  have hM := h.maxThreshold
  have hpos := h.maxThreshold_pos
  have hshows {buffer : Nat → Byte} (hcell : ∀ i < thresh, buffer (q.tail + c * q.chanStride + i) =
      q.buffer (c * q.chanStride + (q.tail + i) % q.queueLength)) :
      Shows (slice buffer (q.tail + c * q.chanStride) thresh) ((F.channels c).take thresh) := by
    refine ⟨by rw [length_slice, List.length_take, hlen]; omega, fun i b hi => ?_⟩
    rw [List.getElem?_take] at hi
    split_ifs at hi with hlt
    rw [List.getElem?_eq_getElem (by rwa [length_slice]), getElem_slice, hcell i hlt, h.cell c hc i b hi]
  unfold CircularQueue.getRawDequeuePtr
  dsimp only
  rw [h.chanOff hc, h.count_eq, if_pos ⟨hn, by omega⟩, check_eq_ok ⟨by omega, by omega⟩, u32_of_lt (by omega)]
  show ∃ src q', (if q.queueLength < q.tail + thresh then _ else _) = _ ∧ _
  -- when the region reaches over the end, the first elements are copied behind the end
  by_cases hwrap : q.queueLength < q.tail + thresh
  · rw [if_pos hwrap, check_eq_ok ⟨⟨by omega, by omega⟩, by omega, by omega⟩]
    refine ⟨_, _, rfl, { h with cell := fun c' hc' i b hi => ?_ }, rfl, hshows fun i hi => ?_⟩
    · have hlt := h.index_lt hc' hi
      have hmod := mod_of_lt_two_mul (show q.tail + i < 2 * q.queueLength by omega)
      show memcpy q.buffer (q.queueLength + c * q.chanStride) q.buffer (c * q.chanStride) (q.tail + thresh - q.queueLength)
        (c' * q.chanStride + (q.tail + i) % q.queueLength) = b
      rw [memcpy_outside, h.cell c' hc' i b hi]
      by_cases hcc : c' = c
      · subst hcc
        rw [hmod]
        split <;> omega
      · have := outside_of_ne (S := q.chanStride) (x := (q.tail + i) % q.queueLength) (y := q.queueLength)
          (n := q.tail + thresh - q.queueLength) (by rw [hmod]; split <;> omega) hcc (by omega)
        omega
    · have hmod := mod_of_lt_two_mul (show q.tail + i < 2 * q.queueLength by omega)
      dsimp only
      rw [hmod]
      split
      · rw [memcpy_outside (by omega)]
        congr 1
        omega
      · rw [show q.tail + c * q.chanStride + i = q.queueLength + c * q.chanStride + (q.tail + i - q.queueLength) by omega,
          memcpy_inside (by omega)]
  · rw [if_neg hwrap]
    refine ⟨_, _, rfl, h, rfl, hshows fun i hi => ?_⟩
    rw [Nat.mod_eq_of_lt (by omega)]
    congr 1
    omega

private theorem readAll (h : Holds q F) {chans : List Nat} (hchans : ∀ c ∈ chans, c < q.numChannels) (hn : thresh ≤ F.count)
    (hmax : thresh ≤ F.maxThreshold) :
    ∃ q' reads, q.readAll thresh chans = .ok (some (q', reads)) ∧ Holds q' F ∧
      List.Forall₂ (fun bytes c => Shows bytes ((F.channels c).take thresh)) reads chans := by
  induction chans generalizing q with
  | nil => exact ⟨q, [], rfl, h, .nil⟩
  | cons c chans ih =>
    rw [List.forall_mem_cons] at hchans
    obtain ⟨src, q', hq', hholds, hnum, hshows⟩ := h.getRawDequeuePtr hchans.1 hn hmax
    obtain ⟨q'', reads, hq'', hholds', hreads⟩ := ih hholds (by rw [hnum]; exact hchans.2)
    refine ⟨q'', _, ?_, hholds', .cons hshows hreads⟩
    rw [CircularQueue.readAll, hq']
    show (q'.readAll thresh chans >>= _) = _
    rw [hq'']
    rfl

/-- `Dequeue` removes the front of each channel. -/
theorem dequeue (h : Holds q F) (hn : n ≤ F.count) (hmax : n ≤ F.maxThreshold) :
    ∃ q', q.dequeue n = .ok q' ∧ Holds q' (F.drop n) := by
  have ht := h.tail_lt
  have hcl := h.count_le
  have hql := h.queueLength
  have hS := h.chanStride
  have hM := h.maxThreshold
  have hS32 := h.chanStride_lt
  have htail : (if q.queueLength ≤ q.tail + n then q.tail + n - q.queueLength else q.tail + n) =
      (q.tail + n) % q.queueLength := by
    rw [mod_of_lt_two_mul (by omega)]
    split <;> split <;> omega
  unfold CircularQueue.dequeue
  rw [check_eq_ok (by rw [h.count_eq]; exact hn)]
  refine ⟨{ q with tail := (q.tail + n) % q.queueLength }, ?_, { h with
    tail_lt := Nat.mod_lt _ (by omega)
    count_le := by show F.count - n ≤ F.capacity; omega
    head := ?_
    length := fun c hc => ?_
    cell := fun c hc i b hi => ?_ }⟩
  · rw [u32_of_lt (show q.tail + n < 2 ^ 32 by omega), ← htail]
    rfl
  · show q.head = ((q.tail + n) % q.queueLength + (F.count - n)) % q.queueLength
    rw [Nat.mod_add_mod, h.head, Nat.add_assoc, Nat.add_sub_cancel' hn]
  · show ((F.channels c).drop n).length = F.count - n
    rw [List.length_drop, h.length c hc]
  · replace hi : ((F.channels c).drop n)[i]? = some (some b) := hi
    rw [List.getElem?_drop] at hi
    show q.buffer (c * q.chanStride + ((q.tail + n) % q.queueLength + i) % q.queueLength) = b
    rw [Nat.mod_add_mod, Nat.add_assoc]
    exact h.cell c hc _ b hi

/-! ### The loops -/

theorem congr {F' : Fifo} (h : Holds q F) (hcapacity : F'.capacity = F.capacity) (hmax : F'.maxThreshold = F.maxThreshold)
    (hnum : F'.numChannels = F.numChannels) (hcount : F'.count = F.count)
    (hchannels : ∀ c < q.numChannels, F'.channels c = F.channels c) : Holds q F' where
  queueLength := by rw [hcapacity]; exact h.queueLength
  maxThreshold := by rw [hmax]; exact h.maxThreshold
  numChannels := by rw [hnum]; exact h.numChannels
  maxThreshold_pos := by rw [hmax]; exact h.maxThreshold_pos
  numChannels_pos := by rw [hnum]; exact h.numChannels_pos
  chanStride := h.chanStride
  size := h.size
  size_lt := h.size_lt
  tail_lt := h.tail_lt
  count_le := by rw [hcount, hcapacity]; exact h.count_le
  head := by rw [hcount]; exact h.head
  length c hc := by rw [hchannels c hc, hcount]; exact h.length c hc
  cell c hc := by rw [hchannels c hc]; exact h.cell c hc

private theorem lt_of_mem_copied {numChans : Nat} (hpos : 0 < q.numChannels) (h : numChans ≤ q.numChannels) :
    ∀ c ∈ CircularQueue.copied numChans, c < q.numChannels := by
  intro c hc
  rcases List.mem_cons.1 hc with rfl | hc
  · exact hpos
  · rw [List.mem_range'_1] at hc
    omega

/-- What one pass of `RawEnqueue` writes. -/
theorem written_copied {f : Nat → List Byte} (numChans : Nat) (hf : ∀ c, (f c).length = n) (c : Nat) :
    Fifo.written n ((CircularQueue.copied numChans).map fun c => (c, f c)) c =
      if c ∈ CircularQueue.copied numChans then (f c).map some else List.replicate n none := by
  have hfold (chans : List Nat) (region : List (Option Byte)) (hregion : region.length = n) :
      (chans.map fun c => (c, f c)).foldl (fun region w =>
        if w.1 = c then w.2.map some ++ region.drop w.2.length else region) region =
      if c ∈ chans then (f c).map some else region := by
    induction chans generalizing region with
    | nil => rfl
    | cons c' chans ih =>
      rw [List.map_cons, List.foldl_cons]
      by_cases hc : c' = c
      · subst hc
        have hnew : (f c').map some ++ region.drop (f c').length = (f c').map some := by
          rw [hf, ← hregion, List.drop_length, List.append_nil]
        dsimp only
        rw [if_pos rfl, hnew, ih _ (by rw [List.length_map, hf])]
        simp
      · dsimp only
        rw [if_neg hc, ih _ hregion]
        simp [Ne.symm hc]
  exact hfold _ _ (List.length_replicate ..)

/-- What `RawEnqueue` puts into channel `c`. -/
def payload (data : Nat → Byte) (count numChans stride c : Nat) : List (Option Byte) :=
  if c ∈ CircularQueue.copied numChans then (slice data (c * stride) count).map some else List.replicate count none

private theorem payload_take {data : Nat → Byte} {count numChans stride k : Nat} (hk : n + k ≤ count) :
    (payload data count numChans stride c).take (n + k) = (payload data count numChans stride c).take n ++
      if c ∈ CircularQueue.copied numChans then (slice data (n + c * stride) k).map some else List.replicate k none := by
  unfold payload
  split_ifs
  · rw [← List.map_take, ← List.map_take, ← List.map_append, take_slice hk, take_slice (by omega)]
    congr 1
    unfold slice
    rw [List.range_add, List.map_append, List.map_map]
    congr 2
    funext i
    show data (c * stride + (n + i)) = data (n + c * stride + i)
    rw [← Nat.add_assoc, Nat.add_comm n]
  · rw [List.take_replicate, List.take_replicate, ← List.replicate_add]
    congr 1
    omega

private theorem length_payload {data : Nat → Byte} {count numChans stride : Nat} :
    (payload data count numChans stride c).length = count := by
  unfold payload
  split_ifs <;> simp

private theorem enqueueLoop {data : Nat → Byte} {count numChans stride fuel numcopied : Nat}
    (h : Holds q (F.append numcopied fun c => (payload data count numChans stride c).take numcopied))
    (hchans : numChans ≤ q.numChannels) (hle : numcopied ≤ count) (hfuel : count - numcopied ≤ fuel)
    (hfree : F.count + count ≤ F.capacity) :
    ∃ q', CircularQueue.enqueueLoop data count numChans stride fuel q numcopied = .ok q' ∧
      Holds q' (F.append count (payload data count numChans stride)) := by
  -- when all is copied, the payload is taken as a whole
  have hall (q : CircularQueue) (h : Holds q (F.append count fun c => (payload data count numChans stride c).take count)) :
      Holds q (F.append count (payload data count numChans stride)) := by
    refine h.congr rfl rfl rfl rfl fun c _ => ?_
    show F.channels c ++ payload .. = F.channels c ++ (payload ..).take _
    rw [List.take_of_length_le (by rw [length_payload])]
  induction fuel generalizing q numcopied with
  | zero =>
    obtain rfl : numcopied = count := by omega
    rw [CircularQueue.enqueueLoop, if_neg (by omega)]
    exact ⟨q, rfl, hall q h⟩
  | succ fuel ih =>
    rw [CircularQueue.enqueueLoop]
    by_cases hlt : numcopied < count
    · have hpos := h.maxThreshold_pos
      have hmaxq := h.maxThreshold
      -- each round copies at most one threshold
      obtain ⟨k, hk⟩ : ∃ k, k = min (count - numcopied) q.maxThreshold := ⟨_, rfl⟩
      have hmax : k ≤ F.maxThreshold := by
        have : q.maxThreshold = F.maxThreshold := hmaxq
        omega
      have hpos' : 0 < F.maxThreshold := hpos
      have hk0 : 0 < k := by
        have : q.maxThreshold = F.maxThreshold := hmaxq
        omega
      have hspace : k ≤ F.capacity - (F.count + numcopied) := by omega
      have hnumpos : 0 < q.numChannels := by rw [h.numChannels]; exact h.numChannels_pos
      have hw : ∀ w ∈ (CircularQueue.copied numChans).map fun c => (c, slice data (numcopied + c * stride) k),
          w.1 < q.numChannels ∧ w.2.length ≤ k := by
        intro w hw
        obtain ⟨c, hc, rfl⟩ := List.mem_map.1 hw
        exact ⟨lt_of_mem_copied hnumpos hchans c hc, by rw [length_slice]⟩
      have hnone : Region q fun _ => List.replicate k none := by
        intro c _ i b hi
        rw [List.getElem?_replicate] at hi
        split_ifs at hi
        cases hi
      obtain ⟨q', hq', hholds, hregion⟩ := h.writeAll hw hspace hmax hnone fun _ => List.length_replicate ..
      have hwritten := written_copied (n := k) (f := fun c => slice data (numcopied + c * stride) k) numChans
        fun c => length_slice ..
      have hlen (c : Nat) : (Fifo.written k
          ((CircularQueue.copied numChans).map fun c => (c, slice data (numcopied + c * stride) k)) c).length = k := by
        rw [hwritten]
        split_ifs <;> simp
      obtain ⟨q'', hq'', hholds'⟩ := hholds.enqueue hregion hlen (Nat.le_refl k) hspace hmax
      have hnext : Holds q'' (F.append (numcopied + k) fun c =>
          (payload data count numChans stride c).take (numcopied + k)) := by
        refine hholds'.congr rfl rfl rfl (Nat.add_assoc ..).symm fun c _ => ?_
        show F.channels c ++ (payload ..).take (numcopied + k) =
          F.channels c ++ (payload ..).take numcopied ++ (Fifo.written k _ c).take k
        rw [List.append_assoc, payload_take (by omega), List.take_of_length_le (hlen c).le, hwritten]
      have hnum : q''.numChannels = q.numChannels := hholds'.numChannels.trans h.numChannels.symm
      obtain ⟨r, hr, hholds''⟩ := ih hnext (by rw [hnum]; exact hchans) (by omega) (by omega)
      refine ⟨r, ?_, hholds''⟩
      rw [if_pos hlt]
      dsimp only
      rw [← hk, hq']
      show (q'.enqueue k >>= _) = _
      rw [hq'']
      exact hr
    · obtain rfl : numcopied = count := by omega
      rw [if_neg hlt]
      exact ⟨q, rfl, hall q h⟩

/-- `RawEnqueue` appends what it copies to each channel, or returns false when there is no space. -/
theorem rawEnqueue (h : Holds q F) {numChans : Nat} (hchans : numChans ≤ q.numChannels) (data : Nat → Byte)
    (count stride : Nat) :
    (count ≤ F.capacity - F.count → ∃ q', q.rawEnqueue data count numChans stride = .ok (some q') ∧
      Holds q' (F.append count (payload data count numChans stride))) ∧
    (¬ count ≤ F.capacity - F.count → q.rawEnqueue data count numChans stride = .ok none) := by
  have hcl := h.count_le
  unfold CircularQueue.rawEnqueue
  rw [check_eq_ok hchans, h.freespace_eq]
  constructor
  · intro hle
    have hstart : Holds q (F.append 0 fun c => (payload data count numChans stride c).take 0) :=
      h.congr rfl rfl rfl rfl fun c _ => by simp [Fifo.append]
    obtain ⟨q', hq', hholds⟩ := enqueueLoop hstart hchans (Nat.zero_le _) (Nat.sub_le count 0) (by omega)
    refine ⟨q', ?_, hholds⟩
    show (if F.capacity - F.count < count then _ else _) = _
    rw [if_neg (by omega), hq']
    rfl
  · intro hlt
    show (if F.capacity - F.count < count then _ else _) = _
    rw [if_pos (by omega)]

private theorem dequeueLoop {count numChans fuel numcopied : Nat} (h : Holds q F) (hchans : numChans ≤ q.numChannels)
    (hle : numcopied ≤ count) (hfuel : count - numcopied ≤ fuel) (hn : count - numcopied ≤ F.count) :
    ∃ q' reads, CircularQueue.dequeueLoop count numChans fuel q numcopied = .ok (q', reads) ∧
      Holds q' (F.drop (count - numcopied)) ∧
      List.Forall₂ (fun bytes c => Shows bytes ((F.channels c).take (count - numcopied))) reads
        (CircularQueue.copied numChans) := by
  have hdone (q : CircularQueue) (F : Fifo) (h : Holds q F) : Holds q (F.drop 0) ∧
      List.Forall₂ (fun bytes c => Shows bytes ((F.channels c).take 0))
        ((CircularQueue.copied numChans).map fun _ => []) (CircularQueue.copied numChans) := by
    refine ⟨h.congr rfl rfl rfl rfl fun _ _ => rfl, ?_⟩
    rw [List.forall₂_map_left_iff, List.forall₂_same]
    exact fun _ _ => shows_nil
  induction fuel generalizing q F numcopied with
  | zero =>
    rw [CircularQueue.dequeueLoop, if_neg (by omega), show count - numcopied = 0 by omega]
    exact ⟨q, _, rfl, hdone q F h⟩
  | succ fuel ih =>
    rw [CircularQueue.dequeueLoop]
    by_cases hlt : numcopied < count
    · have hpos := h.maxThreshold_pos
      have hmaxq := h.maxThreshold
      -- a round takes one threshold at most, and the rest follows by induction on `fuel`
      obtain ⟨k, hk⟩ : ∃ k, k = min (count - numcopied) q.maxThreshold := ⟨_, rfl⟩
      have hnumpos : 0 < q.numChannels := by rw [h.numChannels]; exact h.numChannels_pos
      obtain ⟨q', reads, hq', hholds, hreads⟩ := h.readAll (lt_of_mem_copied hnumpos hchans)
        (show k ≤ F.count by omega) (show k ≤ F.maxThreshold by omega)
      obtain ⟨q'', hq'', hholds'⟩ := hholds.dequeue (show k ≤ F.count by omega) (show k ≤ F.maxThreshold by omega)
      have hnum : q''.numChannels = q.numChannels := hholds'.numChannels.trans h.numChannels.symm
      obtain ⟨r, rest, hr, hholds'', hrest⟩ := ih hholds' (by rw [hnum]; exact hchans)
        (show numcopied + k ≤ count by omega) (by omega) (show count - (numcopied + k) ≤ F.count - k by omega)
      have hsum : count - numcopied = k + (count - (numcopied + k)) := by omega
      refine ⟨r, List.zipWith (· ++ ·) reads rest, ?_, ?_, ?_⟩
      · rw [if_pos hlt]
        dsimp only
        rw [← hk, hq']
        show (q'.dequeue k >>= _) = _
        rw [hq'']
        show (CircularQueue.dequeueLoop count numChans fuel q'' (numcopied + k) >>= _) = _
        rw [hr]
        rfl
      · rw [hsum]
        refine hholds''.congr rfl rfl rfl (by show F.count - (k + _) = F.count - k - _; omega) fun c _ => ?_
        show (F.channels c).drop (k + _) = ((F.channels c).drop k).drop _
        rw [List.drop_drop]
      · have hzip := forall₂_shows_zipWith hreads hrest
        rw [hsum]
        refine hzip.imp fun bytes c hshows => ?_
        rw [List.take_add]
        exact hshows
    · rw [if_neg hlt, show count - numcopied = 0 by omega]
      exact ⟨q, _, rfl, hdone q F h⟩

/-- `RawDequeue` takes the front of each channel, or returns false when there is too little. -/
theorem rawDequeue (h : Holds q F) {numChans : Nat} (hchans : numChans ≤ q.numChannels) (count : Nat) :
    (count ≤ F.count → ∃ q' reads, q.rawDequeue count numChans = .ok (some (q', reads)) ∧ Holds q' (F.drop count) ∧
      List.Forall₂ (fun bytes c => Shows bytes ((F.channels c).take count)) reads (CircularQueue.copied numChans)) ∧
    (¬ count ≤ F.count → q.rawDequeue count numChans = .ok none) := by
  unfold CircularQueue.rawDequeue
  rw [check_eq_ok hchans, h.count_eq]
  constructor
  · intro hle
    obtain ⟨q', reads, hq', hholds⟩ := h.dequeueLoop hchans (Nat.zero_le _) (Nat.sub_le count 0) hle
    refine ⟨q', reads, ?_, hholds⟩
    show (if F.count < count then _ else _) = _
    rw [if_neg (by omega), hq']
    rfl
  · intro hlt
    show (if F.count < count then _ else _) = _
    rw [if_pos (by omega)]

/-! ### Every act -/

theorem getRawEnqueuePtr_eq_none (h : Holds q F) (hc : c < q.numChannels)
    (hn : ¬ (thresh ≤ F.capacity - F.count ∧ thresh ≤ F.maxThreshold)) : q.getRawEnqueuePtr thresh c = .ok none := by
  unfold CircularQueue.getRawEnqueuePtr
  rw [check_eq_ok hc, h.freespace_eq, h.maxThreshold, if_neg hn]
  rfl

private theorem getRawDequeuePtr_eq_none (h : Holds q F) (hn : ¬ (thresh ≤ F.count ∧ thresh ≤ F.maxThreshold)) :
    q.getRawDequeuePtr thresh c = .ok none := by
  unfold CircularQueue.getRawDequeuePtr
  rw [h.count_eq, h.maxThreshold, if_neg hn]

/-- `Grow` keeps what each channel holds. -/
theorem grow (h : Holds q F) {queueLen maxThresh : Nat} (hroom : (F.next (.grow queueLen maxThresh)).size < 2 ^ 32) :
    ∃ q', q.grow queueLen maxThresh = .ok q' ∧ Holds q' (F.next (.grow queueLen maxThresh)) := by
  have hnext : F.next (.grow queueLen maxThresh) = F.accepted (.grow queueLen maxThresh) := if_pos trivial
  have hcl := h.count_le
  have hql := h.queueLength
  have hM := h.maxThreshold
  have hnum := h.numChannels
  have hpos := h.maxThreshold_pos
  have hnumpos := h.numChannels_pos
  rw [hnext] at hroom ⊢
  unfold CircularQueue.grow Fifo.accepted
  by_cases hsame : queueLen ≤ q.queueLength ∧ maxThresh ≤ q.maxThreshold
  · rw [if_pos hsame]
    dsimp only
    rw [if_pos (by rw [← hql, ← hM]; exact hsame)]
    exact ⟨q, rfl, h⟩
  · have hsame' : ¬ (queueLen ≤ F.capacity + 1 ∧ maxThresh ≤ F.maxThreshold) := by rw [← hql, ← hM]; exact hsame
    have hgrown : F.accepted (.grow queueLen maxThresh) =
        { F with capacity := max queueLen (F.capacity + 1), maxThreshold := max maxThresh F.maxThreshold } := if_neg hsame'
    rw [hgrown] at hroom
    obtain ⟨L, hL⟩ : ∃ L, L = max queueLen (F.capacity + 1) := ⟨_, rfl⟩
    obtain ⟨M, hM'⟩ : ∃ M, M = max maxThresh F.maxThreshold := ⟨_, rfl⟩
    replace hroom : (L + 1 + M) * F.numChannels < 2 ^ 32 := by rw [hL, hM']; exact hroom
    have hstride : L + 1 + M < 2 ^ 32 := (Nat.le_mul_of_pos_right _ hnumpos).trans_lt hroom
    -- all elements are dequeued and copied to the front of the new buffer
    obtain ⟨q', reads, hq', -, hreads⟩ := (h.rawDequeue (Nat.le_refl q.numChannels) F.count).1 (Nat.le_refl F.count)
    rw [CircularQueue.copied_eq_range (by omega)] at hreads
    obtain ⟨hreadslen, hreads⟩ := List.forall₂_iff_get.1 hreads
    rw [List.length_range] at hreadslen
    have hcell {c : Nat} (hc : c < q.numChannels) :
        Shows (reads.getD c []) ((F.channels c).take F.count) := by
      have := hreads c (by omega) (by rw [List.length_range]; exact hc)
      rw [List.get_eq_getElem, List.get_eq_getElem, List.getElem_range] at this
      rwa [List.getD_eq_getElem?_getD, List.getElem?_eq_getElem (by omega), Option.getD_some]
    have hbounds : ∀ c < q.numChannels, (L + 1 + M) * c + F.count ≤ (L + 1 + M) * q.numChannels := by
      intro c hc
      have := Nat.mul_le_mul_left (L + 1 + M) (show c + 1 ≤ q.numChannels from hc)
      rw [Nat.mul_add, Nat.mul_one] at this
      omega
    rw [if_neg hsame]
    dsimp only
    rw [if_neg hsame', hql, hM, ← hL, ← hM', h.count_eq, hq', u32_of_lt hstride, u32_of_lt (by rw [hnum]; exact hroom)]
    show ∃ q', (check _ _ >>= fun _ => _) = _ ∧ _
    rw [check_eq_ok hbounds, u32_of_lt (show L + 1 < 2 ^ 32 by omega)]
    refine ⟨_, rfl, ⟨rfl, rfl, hnum, by show 0 < M; omega, hnumpos, rfl, rfl, by rw [hnum]; exact hroom,
      Nat.succ_pos L, by show F.count ≤ L; omega, ?_, h.length, fun c hc i b hi => ?_⟩⟩
    · show F.count = (0 + F.count) % (L + 1)
      rw [Nat.zero_add, Nat.mod_eq_of_lt (by omega)]
    · have hlt := h.index_lt hc hi
      show (reads.getD ((c * (L + 1 + M) + (0 + i) % (L + 1)) / (L + 1 + M)) []).getD
        ((c * (L + 1 + M) + (0 + i) % (L + 1)) % (L + 1 + M)) 0 = b
      rw [Nat.zero_add, Nat.mod_eq_of_lt (show i < L + 1 by omega), Nat.mul_comm c, Nat.mul_add_div (by omega),
        Nat.div_eq_of_lt (by omega), Nat.mul_add_mod, Nat.mod_eq_of_lt (by omega), Nat.add_zero]
      have := (hcell hc).2 i b (by rw [List.getElem?_take, if_pos hlt]; exact hi)
      rw [List.getD_eq_getElem?_getD, this, Option.getD_some]

private theorem clear (h : Holds q F) : Holds q.clear (F.next .clear) := by
  have := h.queueLength
  have hnext : F.next .clear = F.accepted .clear := if_pos trivial
  rw [hnext]
  exact { h with
    tail_lt := by show 0 < q.queueLength; omega
    count_le := Nat.zero_le _
    head := (Nat.zero_mod _).symm
    length := fun _ _ => rfl
    cell := fun _ _ _ _ hi => by cases hi }

/-- An act does to the queue what it does to the lists. -/
theorem act (h : Holds q F) {a : Act} (hallowed : F.Allowed a) (hroom : (F.next a).size < 2 ^ 32) :
    ∃ q' out, act q a = .ok (q', out) ∧ F.Answers a out ∧ Holds q' (F.next a) := by
  unfold Fifo.Answers Fifo.next
  cases a with
  | put thresh writes count =>
    obtain ⟨hne, hw, hcount⟩ := hallowed
    rw [← h.numChannels] at hw
    by_cases hacc : F.Accepts (.put thresh writes count)
    · simp only [if_pos hacc]
      -- before the first write, nothing of the region is known
      have hnone : Region q fun _ => List.replicate thresh none := by
        intro c _ i b hi
        rw [List.getElem?_replicate] at hi
        split_ifs at hi
        cases hi
      obtain ⟨q', hq', hholds, hregion⟩ := h.writeAll hw hacc.1 hacc.2 hnone fun _ => List.length_replicate ..
      have hlen (c : Nat) : (Fifo.written thresh writes c).length = thresh :=
        Fifo.length_written (fun w hw' => (hw w hw').2) c
      obtain ⟨q'', hq'', hholds'⟩ := hholds.enqueue hregion hlen hcount hacc.1 hacc.2
      refine ⟨q'', .done, ?_, rfl, hholds'⟩
      rw [CircularChannels.act, hq']
      show (q'.enqueue count >>= _) = _
      rw [hq'']
      rfl
    · simp only [if_neg hacc]
      refine ⟨q, .refused, ?_, rfl, h⟩
      obtain ⟨w, writes, rfl⟩ := List.exists_cons_of_ne_nil hne
      rw [List.forall_mem_cons] at hw
      rw [CircularChannels.act, CircularQueue.writeAll, h.getRawEnqueuePtr_eq_none hw.1.1 hacc]
      rfl
  | rawEnqueue data count numChans stride =>
    have hchans : numChans ≤ q.numChannels := by rw [h.numChannels]; exact hallowed
    have hraw := h.rawEnqueue hchans data count stride
    by_cases hacc : F.Accepts (.rawEnqueue data count numChans stride)
    · simp only [if_pos hacc]
      obtain ⟨q', hq', hholds⟩ := hraw.1 hacc
      exact ⟨q', .done, by rw [CircularChannels.act, hq']; rfl, rfl, hholds⟩
    · simp only [if_neg hacc]
      exact ⟨q, .refused, by rw [CircularChannels.act, hraw.2 hacc]; rfl, rfl, h⟩
  | take thresh chans count =>
    obtain ⟨hne, hchans, hcount⟩ := hallowed
    rw [← h.numChannels] at hchans
    by_cases hacc : F.Accepts (.take thresh chans count)
    · simp only [if_pos hacc]
      obtain ⟨q', reads, hq', hholds, hreads⟩ := h.readAll hchans hacc.1 hacc.2
      obtain ⟨q'', hq'', hholds'⟩ := hholds.dequeue (hcount.trans hacc.1) (hcount.trans hacc.2)
      refine ⟨q'', .bytes reads, ?_, ⟨reads, rfl, hreads⟩, hholds'⟩
      rw [CircularChannels.act, hq']
      show (q'.dequeue count >>= _) = _
      rw [hq'']
      rfl
    · simp only [if_neg hacc]
      refine ⟨q, .refused, ?_, rfl, h⟩
      obtain ⟨c, chans, rfl⟩ := List.exists_cons_of_ne_nil hne
      rw [CircularChannels.act, CircularQueue.readAll, h.getRawDequeuePtr_eq_none hacc]
      rfl
  | rawDequeue count numChans =>
    have hchans : numChans ≤ q.numChannels := by rw [h.numChannels]; exact hallowed
    have hraw := h.rawDequeue hchans count
    by_cases hacc : F.Accepts (.rawDequeue count numChans)
    · simp only [if_pos hacc]
      obtain ⟨q', reads, hq', hholds, hreads⟩ := hraw.1 hacc
      exact ⟨q', .bytes reads, by rw [CircularChannels.act, hq']; rfl, ⟨reads, rfl, hreads⟩, hholds⟩
    · simp only [if_neg hacc]
      exact ⟨q, .refused, by rw [CircularChannels.act, hraw.2 hacc]; rfl, rfl, h⟩
  | grow queueLen maxThresh =>
    obtain ⟨q', hq', hholds⟩ := h.grow hroom
    refine ⟨q', .done, ?_, rfl, hholds⟩
    rw [CircularChannels.act, hq']
    rfl
  | clear => exact ⟨q.clear, .done, rfl, rfl, h.clear⟩

private theorem run (h : Holds q F) {acts : List Act} (horderly : F.Orderly acts) (hfits : F.Fits acts) :
    ∃ q' outs F', CircularChannels.run q acts = .ok (q', outs) ∧ F.Follows acts outs ∧ Holds q' F' ∧
      F' = acts.foldl Fifo.next F := by
  induction acts generalizing q F with
  | nil => exact ⟨q, [], F, rfl, trivial, h, rfl⟩
  | cons a acts ih =>
    obtain ⟨hallowed, horderly⟩ := horderly
    obtain ⟨-, hfits⟩ := hfits
    obtain ⟨q', out, hact, hanswers, hholds⟩ := h.act hallowed hfits.size
    obtain ⟨q'', outs, F', hrun, hfollows, hholds', hF'⟩ := ih hholds horderly hfits
    refine ⟨q'', out :: outs, F', ?_, ⟨hanswers, hfollows⟩, hholds', hF'⟩
    rw [CircularChannels.run, hact]
    show (CircularChannels.run q' acts >>= _) = _
    rw [hrun]
    rfl

end Holds

private theorem holds_create {size maxThresh numChans : Nat} (hmax : 1 ≤ maxThresh) (hnum : 1 ≤ numChans)
    (hroom : (Fifo.create size maxThresh numChans).size < 2 ^ 32) :
    Holds (CircularQueue.create size maxThresh numChans) (Fifo.create size maxThresh numChans) := by
  have hstride : max size maxThresh + 1 + maxThresh < 2 ^ 32 := (Nat.le_mul_of_pos_right _ hnum).trans_lt hroom
  replace hroom : (max size maxThresh + 1 + maxThresh) * numChans < 2 ^ 32 := hroom
  obtain ⟨L, hL⟩ : ∃ L, L = max size maxThresh := ⟨_, rfl⟩
  have hcreate : CircularQueue.create size maxThresh numChans =
      ⟨L + 1, maxThresh, numChans, L + 1 + maxThresh, 0, 0, (L + 1 + maxThresh) * numChans, fun _ => 0⟩ := by
    rw [← hL] at hroom hstride
    unfold CircularQueue.create
    split
    · rw [show 2 * maxThresh + 1 = L + 1 + maxThresh by omega, show maxThresh + 1 = L + 1 by omega, u32_of_lt hstride,
        u32_of_lt hroom, u32_of_lt (by omega)]
    · rw [show size = L by omega, u32_of_lt hstride, u32_of_lt hroom, u32_of_lt (by omega)]
  rw [hcreate]
  rw [← hL] at hroom
  have hcapacity : (Fifo.create size maxThresh numChans).capacity = L := hL.symm
  exact {
    queueLength := by rw [hcapacity]
    maxThreshold := rfl
    numChannels := rfl
    maxThreshold_pos := hmax
    numChannels_pos := hnum
    chanStride := rfl
    size := rfl
    size_lt := hroom
    tail_lt := Nat.succ_pos L
    count_le := Nat.zero_le _
    head := (Nat.zero_mod _).symm
    length := fun _ _ => rfl
    cell := fun _ _ _ _ hi => by cases hi }

/-! ### Main result -/

/-- Every byte that is read of a channel is the one that was put there, `RawEnqueue` and `RawDequeue` return false exactly
when there is too little space or too few bytes, and no access leaves the buffer, as long as the size of the buffer does not
wrap. -/
theorem run_fifo {size maxThresh numChans : Nat} (hmax : 1 ≤ maxThresh) (hnum : 1 ≤ numChans) {acts : List Act}
    (horderly : (Fifo.create size maxThresh numChans).Orderly acts)
    (hfits : (Fifo.create size maxThresh numChans).Fits acts) :
    ∃ q outs, run (CircularQueue.create size maxThresh numChans) acts = .ok (q, outs) ∧
      (Fifo.create size maxThresh numChans).Follows acts outs ∧
      Holds q (acts.foldl Fifo.next (Fifo.create size maxThresh numChans)) ∧
      q.size = q.chanStride * q.numChannels ∧
      (∀ data count numChans stride, numChans ≤ q.numChannels →
        (q.rawEnqueue data count numChans stride = .ok none ↔ q.freespace < count)) ∧
      ∀ count numChans, numChans ≤ q.numChannels → (q.rawDequeue count numChans = .ok none ↔ q.count < count) := by
  obtain ⟨q, outs, F, hrun, hfollows, hholds, rfl⟩ := (holds_create hmax hnum hfits.size).run horderly hfits
  refine ⟨q, outs, hrun, hfollows, hholds, hholds.size, fun data count numChans stride hchans => ?_,
    fun count numChans hchans => ?_⟩
  · have hraw := hholds.rawEnqueue hchans data count stride
    rw [hholds.freespace_eq, ← Nat.not_le]
    refine ⟨fun hnone hle => ?_, hraw.2⟩
    obtain ⟨q', hq', -⟩ := hraw.1 hle
    rw [hq'] at hnone
    cases hnone
  · have hraw := hholds.rawDequeue hchans count
    rw [hholds.count_eq, ← Nat.not_le]
    refine ⟨fun hnone hle => ?_, hraw.2⟩
    obtain ⟨q', reads, hq', -⟩ := hraw.1 hle
    rw [hq'] at hnone
    cases hnone

theorem run_fifo_wrapped :
    ∃ q outs, run (CircularQueue.create 3 2 2)
        [.put 2 [(0, [1, 2]), (1, [11, 12])] 2, .take 1 [0, 1] 1, .rawEnqueue (fun a => UInt8.ofNat a) 2 2 10, .grow 9 4,
          .rawDequeue 3 2] = .ok (q, outs) ∧
      (Fifo.create 3 2 2).Follows
        [.put 2 [(0, [1, 2]), (1, [11, 12])] 2, .take 1 [0, 1] 1, .rawEnqueue (fun a => UInt8.ofNat a) 2 2 10, .grow 9 4,
          .rawDequeue 3 2] outs := by
  obtain ⟨q, outs, hrun, hfollows, -⟩ := @run_fifo 3 2 2 (by decide) (by decide)
    [.put 2 [(0, [1, 2]), (1, [11, 12])] 2, .take 1 [0, 1] 1, .rawEnqueue (fun a => UInt8.ofNat a) 2 2 10, .grow 9 4,
      .rawDequeue 3 2] (by decide) (by decide)
  exact ⟨q, outs, hrun, hfollows⟩

/-- `65537` channels of `65537` cells: the buffer gets `131073` cells. -/
theorem not_forall_run_fifo :
    ¬ ∀ size maxThresh numChans acts, size < 2 ^ 32 → maxThresh < 2 ^ 32 → numChans < 2 ^ 32 → 1 ≤ maxThresh →
      (Fifo.create size maxThresh numChans).Orderly acts →
      ∃ q outs, run (CircularQueue.create size maxThresh numChans) acts = .ok (q, outs) ∧
        (Fifo.create size maxThresh numChans).Follows acts outs := by
  intro h
  obtain ⟨q, outs, hrun, -⟩ := h 65535 1 65537 [.put 1 [(2, [7])] 1] (by decide) (by decide) (by decide) (by decide)
    (by decide)
  have hfault : run (CircularQueue.create 65535 1 65537) [.put 1 [(2, [7])] 1] = .error .outOfBounds := rfl
  rw [hfault] at hrun
  cases hrun

end ProcessNetwork.CircularChannels
