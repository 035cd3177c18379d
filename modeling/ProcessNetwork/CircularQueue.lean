import ProcessNetwork.RemoteQueue

/-!
# `CircularQueue`

The plain byte buffer of `CircularQueue/CircularQueue.cc`, with one channel, as `BufferedPacketEncoder` uses it.  The
ring has `queueLength` cells, one of which stays free, so that `head` and `tail` run modulo `queueLength` and a full ring
has `queueLength - 1` bytes in it; behind the ring are `maxThreshold` cells into which a region that runs over the end
of the ring continues.  `Enqueue` copies such a region back to the front, `GetRawDequeuePtr` copies the front behind the
ring.

The loops of `RawEnqueue` and `RawDequeue` move at most `maxThreshold` bytes at a time, and do not end when
`maxThreshold` is 0.  `Holds q f` says that the ring contains the bytes `f`; a growth does not change them
(`Holds.grow`).
-/

namespace ProcessNetwork

structure CircularQueue where
  queueLength : Nat
  maxThreshold : Nat
  head : Nat
  tail : Nat
  buffer : Nat → Byte

namespace CircularQueue

def create (size maxThresh : Nat) : CircularQueue where
  queueLength := if size < maxThresh then u32 (maxThresh + 1) else u32 (size + 1)
  maxThreshold := maxThresh
  head := 0
  tail := 0
  buffer _ := 0

def freespace (q : CircularQueue) : Nat :=
  if q.tail ≤ q.head then sub32 (sub32 q.queueLength (q.head - q.tail)) 1 else q.tail - q.head - 1

def count (q : CircularQueue) : Nat :=
  if q.tail ≤ q.head then q.head - q.tail else u32 (q.head + sub32 q.queueLength q.tail)

/-- The position of the pointer, unless it is null. -/
def getRawEnqueuePtr (q : CircularQueue) (thresh : Nat) : Option Nat :=
  if thresh ≤ q.freespace ∧ thresh ≤ q.maxThreshold then some q.head else none

def enqueue (q : CircularQueue) (count : Nat) : Except Fault CircularQueue := do
  ensure (count ≤ q.freespace) "count <= Freespace()"
  let newHead := u32 (q.head + count)
  if q.queueLength ≤ newHead then
    let newHead := newHead - q.queueLength
    .ok { q with buffer := memcpy q.buffer 0 q.buffer q.queueLength newHead, head := newHead }
  else .ok { q with head := newHead }

/-- A store through an enqueue pointer. -/
def store (q : CircularQueue) (dest : Nat) (bytes : List Byte) : CircularQueue :=
  { q with buffer := memcpy q.buffer dest (bytes.getD · 0) 0 bytes.length }

/-- The loop of `RawEnqueue`, with a bound on the number of passes. -/
def enqueueLoop : Nat → CircularQueue → List Byte → Except Fault CircularQueue
  | _, q, [] => .ok q
  | 0, _, _ :: _ => .error .endless
  | fuel + 1, q, data => do
    let numtocopy := min data.length q.maxThreshold
    match q.getRawEnqueuePtr numtocopy with
    | none => .error (.assert "dest")
    | some dest =>
      let q ← (q.store dest (data.take numtocopy)).enqueue numtocopy
      enqueueLoop fuel q (data.drop numtocopy)

/-- `RawEnqueue`, or nothing when it returns false. -/
def rawEnqueue (q : CircularQueue) (data : List Byte) : Except Fault (Option CircularQueue) :=
  if q.freespace < data.length then .ok none else (enqueueLoop data.length q data).map some

/-- The position of the pointer, unless it is null, and the queue with the front copied behind the ring. -/
def getRawDequeuePtr (q : CircularQueue) (thresh : Nat) : Option Nat × CircularQueue :=
  if thresh ≤ q.count ∧ thresh ≤ q.maxThreshold then
    if q.queueLength < u32 (q.tail + thresh) then
      (some q.tail,
        { q with buffer := memcpy q.buffer q.queueLength q.buffer 0 (u32 (q.tail + thresh) - q.queueLength) })
    else (some q.tail, q)
  else (none, q)

def dequeue (q : CircularQueue) (count : Nat) : Except Fault CircularQueue := do
  ensure (count ≤ q.count) "count <= Count()"
  let newTail := q.tail + count
  .ok { q with tail := if q.queueLength ≤ newTail then newTail - q.queueLength else newTail }

/-- The loop of `RawDequeue`, with a bound on the number of passes, and the bytes that it copies. -/
def dequeueLoop : Nat → CircularQueue → Nat → Except Fault (List Byte)
  | _, _, 0 => .ok []
  | 0, _, _ + 1 => .error .endless
  | fuel + 1, q, count => do
    let numtocopy := min count q.maxThreshold
    match q.getRawDequeuePtr numtocopy with
    | (none, _) => .error (.assert "src")
    | (some src, q) =>
      let bytes := slice q.buffer src numtocopy
      let q ← q.dequeue numtocopy
      let rest ← dequeueLoop fuel q (count - numtocopy)
      .ok (bytes ++ rest)

/-- `Grow`; the new buffer is zeroed. -/
def grow (q : CircularQueue) (queueLen maxThresh : Nat) : Except Fault CircularQueue := do
  if queueLen ≤ q.queueLength ∧ maxThresh ≤ q.maxThreshold then .ok q
  else
    let queueLen := max queueLen q.queueLength
    let maxThresh := max maxThresh q.maxThreshold
    let oldcount := q.count
    let bytes ← dequeueLoop oldcount q oldcount
    .ok { queueLength := u32 (queueLen + 1), maxThreshold := maxThresh, head := oldcount, tail := 0,
          buffer := (bytes.getD · 0) }

/-! ### What the queue holds -/

/-- The bytes in the ring, from `tail` on. -/
def contents (q : CircularQueue) : List Byte :=
  (List.range q.count).map fun i => q.buffer ((q.tail + i) % q.queueLength)

/-- The sizes are in range, and the ring holds the bytes `f`. -/
structure Holds (q : CircularQueue) (f : List Byte) : Prop where
  maxThreshold_pos : 0 < q.maxThreshold
  maxThreshold_lt : q.maxThreshold < q.queueLength
  size_lt : q.queueLength + q.maxThreshold < 2 ^ 32
  tail_lt : q.tail < q.queueLength
  length_lt : f.length < q.queueLength
  head : q.head = (q.tail + f.length) % q.queueLength
  cell : ∀ i (h : i < f.length), q.buffer ((q.tail + i) % q.queueLength) = f[i]

variable {q : CircularQueue} {f : List Byte} {n : Nat}

private theorem Holds.head_eq (h : q.Holds f) :
    q.head = if q.tail + f.length < q.queueLength then q.tail + f.length else q.tail + f.length - q.queueLength := by
  have := h.tail_lt
  have := h.length_lt
  rw [h.head, mod_of_lt_two_mul (by omega)]

theorem Holds.count_eq (h : q.Holds f) : q.count = f.length := by
  have hhead := h.head_eq
  have := h.tail_lt
  have := h.length_lt
  have := h.size_lt
  unfold count
  split
  · split at hhead <;> omega
  · rw [sub32_of_le (by omega) (by omega), u32_of_lt (by split at hhead <;> omega)]
    split at hhead <;> omega

private theorem Holds.freespace_eq (h : q.Holds f) : q.freespace = q.queueLength - 1 - f.length := by
  have hhead := h.head_eq
  have := h.tail_lt
  have := h.length_lt
  have := h.size_lt
  unfold freespace
  by_cases htail : q.tail ≤ q.head
  · have hlen : q.head - q.tail = f.length := by split at hhead <;> omega
    rw [if_pos htail, hlen, sub32_of_le (show f.length ≤ q.queueLength by omega) (by omega),
      sub32_of_le (by omega) (by omega)]
    omega
  · rw [if_neg htail]
    split at hhead <;> omega

theorem Holds.contents_eq (h : q.Holds f) : q.contents = f := by
  apply List.ext_getElem
  · simp [contents, h.count_eq]
  · intro i hi hi'
    simp [contents, h.cell i hi']

theorem holds_create {size maxThresh : Nat} (hpos : 0 < maxThresh) (hlt : size + maxThresh + maxThresh + 1 < 2 ^ 32) :
    (create size maxThresh).Holds [] := by
  have hlen : maxThresh < (create size maxThresh).queueLength ∧
      (create size maxThresh).queueLength + maxThresh < 2 ^ 32 := by
    unfold create
    dsimp only
    split
    · rw [u32_of_lt (by omega)]
      omega
    · rw [u32_of_lt (by omega)]
      omega
  refine ⟨hpos, hlen.1, hlen.2, ?_, ?_, ?_, nofun⟩
  · exact Nat.lt_of_le_of_lt (Nat.zero_le _) hlen.1
  · exact Nat.lt_of_le_of_lt (Nat.zero_le _) hlen.1
  · exact (Nat.zero_mod _).symm

/-- A queue that differs in the cells behind the contents holds more. -/
theorem Holds.append (h : q.Holds f) {bytes : List Byte} (hlen : f.length + bytes.length < q.queueLength)
    {head : Nat} {buffer : Nat → Byte} (hhead : head = (q.head + bytes.length) % q.queueLength)
    (hold : ∀ i < f.length, buffer ((q.tail + i) % q.queueLength) = q.buffer ((q.tail + i) % q.queueLength))
    (hnew : ∀ i < bytes.length, buffer ((q.head + i) % q.queueLength) = bytes.getD i 0) :
    ({ q with head := head, buffer := buffer } : CircularQueue).Holds (f ++ bytes) := by
  refine ⟨h.maxThreshold_pos, h.maxThreshold_lt, h.size_lt, h.tail_lt, by rw [List.length_append]; exact hlen, ?_, ?_⟩
  · show head = (q.tail + (f ++ bytes).length) % q.queueLength
    rw [hhead, h.head, Nat.mod_add_mod, List.length_append, Nat.add_assoc]
  · intro i hi
    show buffer ((q.tail + i) % q.queueLength) = (f ++ bytes)[i]
    by_cases hlt : i < f.length
    · rw [hold i hlt, h.cell i hlt, List.getElem_append_left]
    · obtain ⟨j, rfl⟩ : ∃ j, i = f.length + j := ⟨i - f.length, by omega⟩
      rw [List.length_append] at hi
      have hj : j < bytes.length := by omega
      have hcell := hnew j hj
      rw [h.head, Nat.mod_add_mod, Nat.add_assoc] at hcell
      rw [hcell, List.getElem_append_right (Nat.le_add_right ..), List.getD_eq_getElem?_getD,
        List.getElem?_eq_getElem (by omega), Option.getD_some]
      simp only [Nat.add_sub_cancel_left]

/-- Bytes that are stored at the head and enqueued come behind those that are there. -/
theorem Holds.enqueue (h : q.Holds f) {bytes : List Byte} (hfree : bytes.length ≤ q.freespace)
    (hmax : bytes.length ≤ q.maxThreshold) :
    ∃ q', (q.store q.head bytes).enqueue bytes.length = .ok q' ∧ q'.Holds (f ++ bytes) ∧
      q'.queueLength = q.queueLength ∧ q'.maxThreshold = q.maxThreshold := by
  have hhead := h.head_eq
  have ht := h.tail_lt
  have hl := h.length_lt
  have hs := h.size_lt
  have hm := h.maxThreshold_lt
  have hlen : f.length + bytes.length < q.queueLength := by
    rw [h.freespace_eq] at hfree
    omega
  have hheadlt : q.head < q.queueLength := by split at hhead <;> omega
  have hnew : u32 (q.head + bytes.length) = q.head + bytes.length := u32_of_lt (by omega)
  obtain ⟨m, hmem⟩ : ∃ m, m = memcpy q.buffer q.head (bytes.getD · 0) 0 bytes.length := ⟨_, rfl⟩
  have hin : ∀ i < bytes.length, m (q.head + i) = bytes.getD i 0 := by
    intro i hi
    rw [hmem, memcpy_inside hi, Nat.zero_add]
  have hout : ∀ a, a < q.head ∨ q.head + bytes.length ≤ a → m a = q.buffer a := fun a ha => by
    rw [hmem, memcpy_outside ha]
  have hstore : q.store q.head bytes = { q with buffer := m } := by rw [hmem]; rfl
  have hfree' : ({ q with buffer := m } : CircularQueue).freespace = q.freespace := rfl
  rw [hstore, CircularQueue.enqueue, ensure, if_pos (by rw [hfree']; simpa using hfree), hnew]
  show ∃ q', (if q.queueLength ≤ q.head + bytes.length then _ else _) = _ ∧ _
  by_cases hwrap : q.queueLength ≤ q.head + bytes.length
  · rw [if_pos hwrap]
    refine ⟨{ q with buffer := memcpy m 0 m q.queueLength (q.head + bytes.length - q.queueLength),
                     head := q.head + bytes.length - q.queueLength }, rfl, h.append hlen ?_ ?_ ?_, rfl, rfl⟩
    · rw [mod_of_lt_two_mul (by omega), if_neg (by omega)]
    · intro i hi
      rw [mod_of_lt_two_mul (show q.tail + i < 2 * q.queueLength by omega), memcpy_outside, hout]
      · split <;> split at hhead <;> omega
      · split <;> split at hhead <;> omega
    · intro i hi
      rw [mod_of_lt_two_mul (show q.head + i < 2 * q.queueLength by omega)]
      split
      · rw [memcpy_outside (by omega), hin i hi]
      · have hpos : q.head + i - q.queueLength = 0 + (q.head + i - q.queueLength) := (Nat.zero_add _).symm
        rw [hpos, memcpy_inside (by omega), show q.queueLength + (q.head + i - q.queueLength) = q.head + i by omega,
          hin i hi]
  · rw [if_neg hwrap]
    refine ⟨{ q with buffer := m, head := q.head + bytes.length }, rfl, h.append hlen ?_ ?_ ?_, rfl, rfl⟩
    · rw [Nat.mod_eq_of_lt (by omega)]
    · intro i hi
      rw [mod_of_lt_two_mul (show q.tail + i < 2 * q.queueLength by omega), hout]
      split <;> split at hhead <;> omega
    · intro i hi
      rw [Nat.mod_eq_of_lt (by omega), hin i hi]

/-- `RawEnqueue` stores all bytes when there is space for them. -/
theorem Holds.enqueueLoop (h : q.Holds f) {data : List Byte} {fuel : Nat} (hfuel : data.length ≤ fuel)
    (hlen : f.length + data.length < q.queueLength) :
    ∃ q', CircularQueue.enqueueLoop fuel q data = .ok q' ∧ q'.Holds (f ++ data) ∧ q'.queueLength = q.queueLength ∧
      q'.maxThreshold = q.maxThreshold := by
  induction fuel generalizing q f data with
  | zero =>
    obtain rfl : data = [] := List.eq_nil_of_length_eq_zero (by omega)
    exact ⟨q, by rw [CircularQueue.enqueueLoop], by simpa using h, rfl, rfl⟩
  | succ fuel ih =>
    cases data with
    | nil => exact ⟨q, by rw [CircularQueue.enqueueLoop], by simpa using h, rfl, rfl⟩
    | cons b data =>
      have hpos := h.maxThreshold_pos
      obtain ⟨n, hn⟩ : ∃ n, n = min (b :: data).length q.maxThreshold := ⟨_, rfl⟩
      have hn0 : 0 < n := by
        rw [hn, List.length_cons]
        omega
      have htake : ((b :: data).take n).length = n := by
        rw [List.length_take]
        omega
      have hfree : n ≤ q.freespace := by
        rw [h.freespace_eq]
        omega
      obtain ⟨q', hq', hholds, hL, hM⟩ := h.enqueue (by omega) (show ((b :: data).take n).length ≤ q.maxThreshold by omega)
      obtain ⟨q'', hq'', hholds', hL', hM'⟩ := ih hholds
        (show ((b :: data).drop n).length ≤ fuel by rw [List.length_drop]; omega)
          (by rw [List.length_append, List.length_drop, htake, hL]; omega)
      rw [List.append_assoc, List.take_append_drop] at hholds'
      refine ⟨q'', ?_, hholds', by rw [hL', hL], by rw [hM', hM]⟩
      rw [htake] at hq'
      rw [CircularQueue.enqueueLoop, ← hn, getRawEnqueuePtr, if_pos ⟨hfree, by omega⟩]
      · show (q.store q.head ((b :: data).take n)).enqueue n >>= _ = _
        rw [hq']
        exact hq''
      · exact nofun

/-- `RawEnqueue` appends the bytes, or returns false when there is no space for them. -/
theorem Holds.rawEnqueue (h : q.Holds f) (data : List Byte) :
    (f.length + data.length < q.queueLength ∧ ∃ q', q.rawEnqueue data = .ok (some q') ∧ q'.Holds (f ++ data) ∧
      q'.queueLength = q.queueLength ∧ q'.maxThreshold = q.maxThreshold) ∨
    q.queueLength ≤ f.length + data.length ∧ q.rawEnqueue data = .ok none := by
  have hl := h.length_lt
  unfold CircularQueue.rawEnqueue
  rw [h.freespace_eq]
  by_cases hlen : f.length + data.length < q.queueLength
  · obtain ⟨q', hq', hholds⟩ := h.enqueueLoop (Nat.le_refl _) hlen
    rw [if_neg (by omega), hq']
    exact .inl ⟨hlen, q', rfl, hholds⟩
  · rw [if_pos (by omega)]
    exact .inr ⟨by omega, rfl⟩

/-- The pointer of `GetRawDequeuePtr` points to the front. -/
theorem Holds.getRawDequeuePtr (h : q.Holds f) (hn : n ≤ f.length) (hmax : n ≤ q.maxThreshold) :
    ∃ q', q.getRawDequeuePtr n = (some q'.tail, q') ∧ slice q'.buffer q'.tail n = f.take n ∧ q'.Holds f ∧
      q'.queueLength = q.queueLength ∧ q'.maxThreshold = q.maxThreshold := by
  have ht := h.tail_lt
  have hl := h.length_lt
  have hs := h.size_lt
  have hm := h.maxThreshold_lt
  have hslice : ∀ {m : Nat → Byte}, (∀ i < n, m (q.tail + i) = q.buffer ((q.tail + i) % q.queueLength)) →
      slice m q.tail n = f.take n := by
    intro m hmem
    apply List.ext_getElem
    · simp [hn]
    · intro i hi hi'
      have hin : i < n := by simpa using hi
      rw [getElem_slice, hmem i hin, h.cell i (by omega), List.getElem_take]
  unfold CircularQueue.getRawDequeuePtr
  rw [if_pos ⟨by rw [h.count_eq]; exact hn, hmax⟩, u32_of_lt (by omega)]
  by_cases hwrap : q.queueLength < q.tail + n
  · rw [if_pos hwrap]
    refine ⟨{ q with buffer := memcpy q.buffer q.queueLength q.buffer 0 (q.tail + n - q.queueLength) }, rfl, ?_,
      ⟨h.maxThreshold_pos, hm, hs, ht, hl, h.head, ?_⟩, rfl, rfl⟩
    · refine hslice fun i hi => ?_
      rw [mod_of_lt_two_mul (show q.tail + i < 2 * q.queueLength by omega)]
      dsimp only
      split
      · rw [memcpy_outside (by omega)]
      · obtain ⟨j, hj⟩ : ∃ j, q.tail + i = q.queueLength + j := ⟨q.tail + i - q.queueLength, by omega⟩
        rw [hj, memcpy_inside (by omega), Nat.zero_add, Nat.add_sub_cancel_left]
    · intro i hi
      have hlt := Nat.mod_lt (q.tail + i) (show 0 < q.queueLength by omega)
      show memcpy _ _ _ _ _ _ = _
      rw [memcpy_outside (.inl hlt), h.cell i hi]
  · rw [if_neg hwrap]
    refine ⟨q, rfl, ?_, h, rfl, rfl⟩
    refine hslice fun i hi => ?_
    rw [Nat.mod_eq_of_lt (by omega)]

theorem Holds.dequeue (h : q.Holds f) (hn : n ≤ f.length) :
    ∃ q', q.dequeue n = .ok q' ∧ q'.Holds (f.drop n) ∧ q'.queueLength = q.queueLength ∧ q'.maxThreshold =
      q.maxThreshold := by
  have ht := h.tail_lt
  have hl := h.length_lt
  have htail : (if q.queueLength ≤ q.tail + n then q.tail + n - q.queueLength else q.tail + n) =
      (q.tail + n) % q.queueLength := by
    rw [mod_of_lt_two_mul (by omega)]
    split <;> split <;> omega
  unfold CircularQueue.dequeue
  rw [ensure, if_pos (by rw [h.count_eq]; simpa using hn)]
  refine ⟨{ q with tail := (q.tail + n) % q.queueLength }, ?_,
    ⟨h.maxThreshold_pos, h.maxThreshold_lt, h.size_lt, Nat.mod_lt _ (by omega), ?_, ?_, ?_⟩, rfl, rfl⟩
  · rw [← htail]
    rfl
  · rw [List.length_drop]
    exact Nat.lt_of_le_of_lt (Nat.sub_le ..) hl
  · show q.head = ((q.tail + n) % q.queueLength + (f.drop n).length) % q.queueLength
    rw [Nat.mod_add_mod, h.head, List.length_drop, Nat.add_assoc, Nat.add_sub_cancel' hn]
  · intro i hi
    rw [List.length_drop] at hi
    show q.buffer (((q.tail + n) % q.queueLength + i) % q.queueLength) = _
    rw [Nat.mod_add_mod, Nat.add_assoc, h.cell _ (by omega), List.getElem_drop]

/-- `RawDequeue` of everything copies the contents. -/
theorem Holds.dequeueLoop (h : q.Holds f) {fuel : Nat} (hfuel : n ≤ fuel) (hn : n ≤ f.length) :
    CircularQueue.dequeueLoop fuel q n = .ok (f.take n) := by
  induction fuel generalizing q f n with
  | zero =>
    obtain rfl : n = 0 := by omega
    rw [CircularQueue.dequeueLoop]
    rfl
  | succ fuel ih =>
    cases n with
    | zero =>
      rw [CircularQueue.dequeueLoop]
      rfl
    | succ n =>
      have hpos := h.maxThreshold_pos
      obtain ⟨k, hk⟩ : ∃ k, k = min (n + 1) q.maxThreshold := ⟨_, rfl⟩
      obtain ⟨q', hq', hslice, hholds, hL, hM⟩ := h.getRawDequeuePtr (show k ≤ f.length by omega)
        (show k ≤ q.maxThreshold by omega)
      obtain ⟨q'', hq'', hholds', -, -⟩ := hholds.dequeue (show k ≤ f.length by omega)
      have hrest := ih hholds' (show n + 1 - k ≤ fuel by omega) (by rw [List.length_drop]; omega)
      rw [CircularQueue.dequeueLoop, ← hk, hq']
      · show (q'.dequeue k >>= _) = _
        rw [hq'']
        show (CircularQueue.dequeueLoop fuel q'' (n + 1 - k) >>= _) = _
        rw [hrest, hslice]
        show Except.ok (f.take k ++ (f.drop k).take (n + 1 - k)) = _
        rw [← List.take_add, Nat.add_sub_cancel' (by omega)]
      · exact nofun

/-- Growing does not change the contents. -/
theorem Holds.grow (h : q.Holds f) {queueLen maxThresh : Nat} (hgrow : q.queueLength < queueLen ∨ q.maxThreshold < maxThresh)
    (hmax : max maxThresh q.maxThreshold ≤ max queueLen q.queueLength)
    (hsize : max queueLen q.queueLength + 1 + max maxThresh q.maxThreshold < 2 ^ 32) :
    ∃ q', q.grow queueLen maxThresh = .ok q' ∧ q'.Holds f ∧ q'.queueLength = max queueLen q.queueLength + 1 ∧
      q'.maxThreshold = max maxThresh q.maxThreshold := by
  have hl := h.length_lt
  have hpos := h.maxThreshold_pos
  have hloop := h.dequeueLoop (Nat.le_refl f.length) (Nat.le_refl _)
  rw [List.take_length] at hloop
  unfold CircularQueue.grow
  rw [if_neg (by omega), h.count_eq]
  dsimp only
  rw [hloop]
  refine ⟨_, rfl, ⟨by show 0 < max maxThresh q.maxThreshold; omega, ?_, ?_, ?_, ?_, ?_, ?_⟩, u32_of_lt (by omega), rfl⟩
  all_goals dsimp only
  all_goals rw [u32_of_lt (show max queueLen q.queueLength + 1 < 2 ^ 32 by omega)]
  · omega
  · omega
  · omega
  · omega
  · rw [Nat.zero_add, Nat.mod_eq_of_lt (by omega)]
  · intro i hi
    rw [Nat.zero_add, Nat.mod_eq_of_lt (by omega), List.getD_eq_getElem?_getD, List.getElem?_eq_getElem hi, Option.getD_some]

end CircularQueue

end ProcessNetwork
