import ProcessNetwork.Lib.Machine
import ProcessNetwork.PacketHeader

/-!
# The transfer loops of `RemoteQueue`

`RemoteQueue::WriteBytes` hands a list of sections to a socket that takes as much as it likes at each call, and the loop
of `EnqueuePacket` reads the payload of a packet into one region for each channel.  Both loops keep a pointer into a
vector of sections, here the rest of a list, and make one call of the socket at a time, so a run is a sequence of calls
and a call is a step (`WriteLoop.step`, `ReadLoop.step`).  Sections are `size_t` and the counters are `unsigned`: the
loops are right exactly when the number of bytes to be moved is below `2 ^ 32`.
-/

namespace ProcessNetwork

/-! ### WriteBytes -/

/-- Where `WriteBytes` is: about to call `Writev` with the rest of the vector; about to call `Write` with what is left of
a section of which `amount` bytes are written, `num` of them by `Writev`; or at its end. -/
inductive WritePc
  | writev (iov : List (List Byte))
  | write (bytes : List Byte) (amount num : Nat) (iov : List (List Byte))
  | returned
  | failed
  deriving DecidableEq

structure WriteLoop where
  total : Nat
  numwritten : Nat
  /-- what the socket has taken -/
  sent : List Byte
  pc : WritePc
  deriving DecidableEq

/-- `while (iov->iov_len <= num) { num -= iov->iov_len; ++iov; }`, or nothing when it runs over the end of the vector. -/
def skipSections : List (List Byte) → Nat → Option (List Byte × List (List Byte) × Nat)
  | [], _ => none
  | bytes :: iov, num => if bytes.length ≤ num then skipSections iov (num - bytes.length) else some (bytes, iov, num)

namespace WriteLoop

/-- The condition of the outer loop, and the assertion behind it. -/
def again (w : WriteLoop) (iov : List (List Byte)) : WriteLoop :=
  if w.numwritten < w.total then { w with pc := .writev iov }
  else if w.total = w.numwritten then { w with pc := .returned }
  else { w with pc := .failed }

def start (iov : List (List Byte)) : WriteLoop :=
  again { total := u32 (iov.map List.length).sum, numwritten := 0, sent := [], pc := .returned } iov

/-- The loop up to its next call, when the socket is ready to take `n` bytes. -/
def step (w : WriteLoop) (n : Nat) : WriteLoop :=
  match w.pc with
  | .writev iov =>
    let taken := iov.flatten.take n
    let w := { w with sent := w.sent ++ taken, numwritten := u32 (w.numwritten + u32 taken.length) }
    if w.numwritten = w.total then { w with pc := .returned }
    else
      match skipSections iov (u32 taken.length) with
      | none => { w with pc := .failed }
      | some (bytes, iov, num) => if 0 < num then { w with pc := .write bytes num num iov } else w.again (bytes :: iov)
  | .write bytes amount num iov =>
    let taken := ((bytes.drop amount).take (u32 (bytes.length - amount))).take n
    let w := { w with sent := w.sent ++ taken }
    let amount := u32 (amount + taken.length)
    if amount < bytes.length then { w with pc := .write bytes amount num iov }
    else { w with numwritten := u32 (w.numwritten + sub32 amount num) }.again iov
  | .returned => w
  | .failed => w

/-- The loop after `i` calls, when the socket is ready to take `accept j` bytes at call `j`. -/
def run (iov : List (List Byte)) (accept : Nat → Nat) : Nat → WriteLoop
  | 0 => start iov
  | i + 1 => (run iov accept i).step (accept i)

end WriteLoop

/-- `WriteBytes` returns and has given the socket all bytes in order, whatever the socket takes, as long as it goes on to
take something. -/
def WritesAll (iov : List (List Byte)) : Prop :=
  ∀ accept : Nat → Nat, (∀ i, ∃ j, i ≤ j ∧ 0 < accept j) →
    (∀ i, (WriteLoop.run iov accept i).pc ≠ .failed) ∧
      ∃ i, (WriteLoop.run iov accept i).pc = .returned ∧ (WriteLoop.run iov accept i).sent = iov.flatten

private theorem take_append_drop_length {α : Type} (xs : List α) (n : Nat) :
    xs.take n ++ xs.drop (xs.take n).length = xs := by
  rw [List.length_take]
  rcases Nat.le_total n xs.length with h | h
  · rw [Nat.min_eq_left h, List.take_append_drop]
  · rw [Nat.min_eq_right h, List.take_of_length_le h, List.drop_length, List.append_nil]

private theorem skipSections_spec {iov : List (List Byte)} {num : Nat} (h : num < iov.flatten.length) :
    ∃ bytes iov' num', skipSections iov num = some (bytes, iov', num') ∧ num' < bytes.length ∧ num' ≤ num ∧
      iov.flatten.drop num = bytes.drop num' ++ iov'.flatten := by
  induction iov generalizing num with
  | nil => simp at h
  | cons bytes iov ih =>
    rw [List.flatten_cons, List.length_append] at h
    unfold skipSections
    by_cases hle : bytes.length ≤ num
    · rw [if_pos hle]
      obtain ⟨bytes', iov', num', hskip, hlt, hnum, hdrop⟩ := ih (show num - bytes.length < _ by omega)
      refine ⟨bytes', iov', num', hskip, hlt, by omega, ?_⟩
      rw [List.flatten_cons, List.drop_append, List.drop_of_length_le hle, List.nil_append, hdrop]
    · rw [if_neg hle]
      refine ⟨bytes, iov, num, rfl, by omega, Nat.le_refl _, ?_⟩
      rw [List.flatten_cons, List.drop_append_of_le_length (by omega)]

namespace WriteLoop

/-- What is left to be written. -/
def left (w : WriteLoop) : List Byte :=
  match w.pc with
  | .writev iov => iov.flatten
  | .write bytes amount _ iov => bytes.drop amount ++ iov.flatten
  | .returned => []
  | .failed => []

/-- The bytes `all` are those that the socket has taken and those that are left, and the counters agree with that. -/
structure Writes (all : List Byte) (w : WriteLoop) : Prop where
  lt : all.length < 2 ^ 32
  total : w.total = all.length
  split : all = w.sent ++ w.left
  count : match w.pc with
    | .writev _ => w.numwritten = w.sent.length ∧ w.left ≠ []
    | .write bytes amount num _ => num ≤ amount ∧ amount ≤ w.sent.length ∧ amount < bytes.length ∧
        w.numwritten + amount = w.sent.length + num
    | .returned => True
    | .failed => False

variable {all : List Byte} {w : WriteLoop} {iov : List (List Byte)} {n : Nat}

private theorem Writes.again {w : WriteLoop} {iov : List (List Byte)} (hlt : all.length < 2 ^ 32) (ht : w.total = all.length)
    (hsplit : all = w.sent ++ iov.flatten) (hn : w.numwritten = w.sent.length) : (w.again iov).Writes all := by
  have hlen := congrArg List.length hsplit
  rw [List.length_append] at hlen
  unfold WriteLoop.again
  by_cases hless : w.numwritten < w.total
  · rw [if_pos hless]
    refine ⟨hlt, ht, hsplit, hn, ?_⟩
    show iov.flatten ≠ []
    rw [← List.length_pos_iff]
    omega
  · have hnil : iov.flatten = [] := List.eq_nil_of_length_eq_zero (by omega)
    rw [if_neg hless, if_pos (by omega)]
    refine ⟨hlt, ht, ?_, trivial⟩
    rw [hsplit, hnil]
    rfl

private theorem writes_start (h : iov.flatten.length < 2 ^ 32) : (start iov).Writes iov.flatten := by
  refine .again h ?_ rfl rfl
  show u32 _ = _
  rw [← List.length_flatten, u32_of_lt h]

private theorem Writes.step (h : w.Writes all) (n : Nat) : (w.step n).Writes all := by
  obtain ⟨total, numwritten, sent, pc⟩ := w
  obtain ⟨hlt, ht, hsplit, hcount⟩ := h
  have hlen := congrArg List.length hsplit
  rw [List.length_append] at hlen
  cases pc with
  | writev iov =>
    obtain ⟨hn, hne⟩ := hcount
    simp only [left] at ht hsplit hlen hn
    have htaken : (iov.flatten.take n).length ≤ iov.flatten.length := by
      rw [List.length_take]
      omega
    have hnum : u32 (numwritten + u32 (iov.flatten.take n).length) = (sent ++ iov.flatten.take n).length := by
      rw [u32_of_lt (show (iov.flatten.take n).length < 2 ^ 32 by omega), u32_of_lt (by omega), hn, List.length_append]
    have hall : all = (sent ++ iov.flatten.take n) ++ iov.flatten.drop n := by
      rw [List.append_assoc, List.take_append_drop, hsplit]
    simp only [WriteLoop.step, hnum]
    -- after `writev`: all is sent, or the sections that are sent are skipped
    by_cases hdone : (sent ++ iov.flatten.take n).length = total
    · rw [if_pos hdone]
      have hnil : iov.flatten.drop n = [] := by
        have := congrArg List.length hall
        rw [List.length_append] at this
        exact List.eq_nil_of_length_eq_zero (by omega)
      refine ⟨hlt, ht, ?_, trivial⟩
      rw [hall, hnil]
      rfl
    · rw [if_neg hdone]
      have hn' : (iov.flatten.take n).length = n := by
        rw [List.length_append] at hdone
        rw [List.length_take] at hdone ⊢
        omega
      have hltn : n < iov.flatten.length := by
        rw [List.length_append] at hdone
        omega
      rw [hn', u32_of_lt (by omega)]
      obtain ⟨bytes, iov', num, hskip, hnumlt, hnumle, hdrop⟩ := skipSections_spec hltn
      rw [hskip]
      -- a section that is sent in part goes on in the inner loop
      by_cases hpos : 0 < num
      · simp only [hpos, if_true]
        refine ⟨hlt, ht, by rw [hall, hdrop]; rfl, Nat.le_refl _, ?_, hnumlt, rfl⟩
        rw [List.length_append]
        omega
      · simp only [hpos, if_false]
        refine .again hlt ht ?_ rfl
        rw [hall, hdrop, show num = 0 by omega]
        rfl
  | write bytes amount num iov =>
    obtain ⟨hle, hsent, hamount, hn⟩ := hcount
    simp only [left, List.length_append, List.length_drop] at ht hsplit hlen hn hsent
    have hrest : (bytes.drop amount).take (u32 (bytes.length - amount)) = bytes.drop amount := by
      rw [u32_of_lt (by omega)]
      exact List.take_of_length_le (by rw [List.length_drop])
    obtain ⟨taken, htaken⟩ : ∃ taken, taken = (bytes.drop amount).take n := ⟨_, rfl⟩
    have hlentaken : taken.length ≤ bytes.length - amount := by
      rw [htaken, List.length_take, List.length_drop]
      omega
    have hamount' : u32 (amount + taken.length) = amount + taken.length := u32_of_lt (by omega)
    have hdrop : bytes.drop amount = taken ++ bytes.drop (amount + taken.length) := by
      rw [← List.drop_drop, htaken, take_append_drop_length]
    simp only [WriteLoop.step, hrest, ← htaken, hamount']
    by_cases hmore : amount + taken.length < bytes.length
    · rw [if_pos hmore]
      refine ⟨hlt, ht, ?_, by omega, ?_, hmore, ?_⟩
      · rw [hsplit, hdrop]
        simp [left]
      · rw [List.length_append]
        omega
      · show numwritten + (amount + taken.length) = (sent ++ taken).length + num
        rw [List.length_append]
        omega
    · rw [if_neg hmore]
      have hend : bytes.drop (amount + taken.length) = [] := List.drop_of_length_le (by omega)
      rw [hend, List.append_nil] at hdrop
      refine .again hlt ht ?_ ?_
      · rw [hsplit, hdrop, List.append_assoc]
      · show u32 (numwritten + sub32 (amount + taken.length) num) = (sent ++ taken).length
        rw [sub32_of_le (by omega) (by omega), u32_of_lt (by omega), List.length_append]
        omega
  | returned => exact ⟨hlt, ht, hsplit, trivial⟩
  | failed => exact hcount.elim

private theorem writes_run (h : iov.flatten.length < 2 ^ 32) (accept : Nat → Nat) (i : Nat) :
    (run iov accept i).Writes iov.flatten := by
  induction i with
  | zero => exact writes_start h
  | succ i ih => exact ih.step (accept i)

private theorem Writes.left_ne_nil (h : w.Writes all) (hpc : w.pc ≠ .returned) : w.left ≠ [] := by
  obtain ⟨total, numwritten, sent, pc⟩ := w
  have hcount := h.count
  cases pc with
  | writev iov => exact hcount.2
  | write bytes amount num iov =>
    intro hnil
    have := congrArg List.length hnil
    simp only [left, List.length_append, List.length_drop, List.length_nil] at this
    omega
  | returned => exact absurd rfl hpc
  | failed => exact hcount.elim

@[simp] theorem sent_again (w : WriteLoop) (iov : List (List Byte)) : (w.again iov).sent = w.sent := by
  unfold WriteLoop.again
  split
  · rfl
  · split <;> rfl

/-- What the socket takes in a step. -/
theorem Writes.sent_step (h : w.Writes all) (n : Nat) :
    (w.step n).sent = w.sent ++ match w.pc with
      | .writev iov => iov.flatten.take n
      | .write bytes amount _ _ => (bytes.drop amount).take n
      | .returned => []
      | .failed => [] := by
  obtain ⟨total, numwritten, sent, pc⟩ := w
  obtain ⟨hlt, -, hsplit, hcount⟩ := h
  have hlen := congrArg List.length hsplit
  cases pc with
  | writev iov =>
    simp only [WriteLoop.step]
    split
    · rfl
    · split
      · rfl
      · split
        · rfl
        · exact sent_again ..
  | write bytes amount num iov =>
    simp only [left, List.length_append, List.length_drop] at hlen
    have hrest : (bytes.drop amount).take (u32 (bytes.length - amount)) = bytes.drop amount := by
      rw [u32_of_lt (by omega)]
      exact List.take_of_length_le (by rw [List.length_drop])
    simp only [WriteLoop.step, hrest]
    split
    · rfl
    · exact sent_again ..
  | returned => exact (List.append_nil _).symm
  | failed => exact (List.append_nil _).symm

/-- Until it returns, the loop makes progress whenever the socket takes something. -/
theorem Writes.left_step (h : w.Writes all) (n : Nat) : (w.step n).left.length ≤ w.left.length ∧
    (0 < n → w.pc ≠ .returned → (w.step n).left.length < w.left.length) := by
  have hlen := congrArg List.length h.split
  have hlen' := congrArg List.length (h.step n).split
  have hcount := h.count
  have hleft := h.left_ne_nil
  rw [h.sent_step] at hlen'
  simp only [List.length_append] at hlen hlen'
  refine ⟨by omega, fun hn hpc => ?_⟩
  have hpos := List.length_pos_iff.2 (hleft hpc)
  obtain ⟨total, numwritten, sent, pc⟩ := w
  cases pc with
  | writev iov =>
    simp only [left, List.length_take] at hlen hlen' hpos ⊢
    omega
  | write bytes amount num iov =>
    simp only [left, List.length_take, List.length_append, List.length_drop] at hlen hlen' hpos ⊢
    omega
  | returned => exact absurd rfl hpc
  | failed => exact hcount.elim

private theorem step_of_returned (h : w.pc = .returned) (n : Nat) : w.step n = w := by
  unfold WriteLoop.step
  rw [h]

/-- A loop whose counter has wrapped stops too early: the socket takes what the counter says, and the loop returns. -/
theorem returned_of_wrapped (h : 2 ^ 32 ≤ iov.flatten.length) (i : Nat) :
    (run iov (fun _ => max 1 (u32 iov.flatten.length)) (i + 1)).pc = .returned ∧
      (run iov (fun _ => max 1 (u32 iov.flatten.length)) (i + 1)).sent = iov.flatten.take (u32 iov.flatten.length) := by
  induction i with
  | succ i ih =>
    have hstep := step_of_returned ih.1 (max 1 (u32 iov.flatten.length))
    rw [run, hstep]
    exact ih
  | zero =>
    obtain ⟨t, ht⟩ : ∃ t, t = u32 iov.flatten.length := ⟨_, rfl⟩
    have hlt : t < 2 ^ 32 := by rw [ht]; exact Nat.mod_lt _ (by decide)
    rw [run, run, ← ht]
    rcases Nat.eq_zero_or_pos t with h0 | hpos
    · have hstart : start iov = ⟨0, 0, [], .returned⟩ := by
        unfold start WriteLoop.again
        rw [← List.length_flatten, ← ht, h0]
        rfl
      rw [hstart, h0]
      exact ⟨rfl, rfl⟩
    · have hstart : start iov = ⟨t, 0, [], .writev iov⟩ := by
        unfold start WriteLoop.again
        rw [← List.length_flatten, ← ht, if_pos hpos]
      have htake : (iov.flatten.take t).length = t := by
        rw [List.length_take]
        omega
      rw [hstart, Nat.max_eq_right hpos]
      simp only [WriteLoop.step, htake]
      rw [u32_of_lt hlt, Nat.zero_add, u32_of_lt hlt, if_pos rfl]
      exact ⟨rfl, rfl⟩

end WriteLoop

/-- `WriteBytes` is right exactly when the number of bytes does not wrap. -/
theorem writesAll_iff (iov : List (List Byte)) : WritesAll iov ↔ iov.flatten.length < 2 ^ 32 := by
  constructor
  · intro h
    by_contra hge
    obtain ⟨-, i, -, hsent⟩ := h (fun _ => max 1 (u32 iov.flatten.length)) fun i => ⟨i, Nat.le_refl _, by omega⟩
    have hlt : u32 iov.flatten.length < 2 ^ 32 := Nat.mod_lt _ (by decide)
    have hlen := congrArg List.length hsent
    cases i with
    | zero =>
      rw [WriteLoop.run, WriteLoop.start, WriteLoop.sent_again] at hlen
      simp only [List.length_nil] at hlen
      omega
    | succ i =>
      rw [(WriteLoop.returned_of_wrapped (by omega) i).2, List.length_take] at hlen
      omega
  · intro h accept haccept
    refine ⟨fun i hfailed => ?_, ?_⟩
    · have := (WriteLoop.writes_run h accept i).count
      rw [hfailed] at this
      exact this
    · obtain ⟨i, hi⟩ : ∃ i, (WriteLoop.run iov accept i).pc = .returned :=
        exists_stop_of_fair (fun w : WriteLoop => w.pc = .returned) (fun w => w.left.length)
          (fun i => ((WriteLoop.writes_run h accept i).left_step (accept i)).1)
          (fun i => ((WriteLoop.writes_run h accept i).left_step (accept i)).2) haccept
      refine ⟨i, hi, ?_⟩
      have hsplit := (WriteLoop.writes_run h accept i).split
      rw [WriteLoop.left, hi, List.append_nil] at hsplit
      exact hsplit.symm

/-! ### The read loop of EnqueuePacket -/

/-- An `iovec` into the region of a channel, `off` bytes from its beginning. -/
structure Region where
  chan : Nat
  off : Nat
  len : Nat
  deriving DecidableEq

/-- The bytes of the region, by channel and offset. -/
def Region.cells (r : Region) : List (Nat × Nat) := (List.range r.len).map fun i => (r.chan, r.off + i)

def cellsOf (iovs : List Region) : List (Nat × Nat) := iovs.flatMap Region.cells

/-- Stores of bytes, one after the other. -/
def storeAll (stores : List ((Nat × Nat) × Byte)) (mem : Nat × Nat → Byte) : Nat × Nat → Byte :=
  stores.foldl (fun mem s => Function.update mem s.1 s.2) mem

/-- `while (iovs[i].iov_len <= num) { num -= iovs[i].iov_len; ++i; }`, and the adjustment of the section in which this
ends, or nothing when it runs over the end of the vector. -/
def skipRegions : List Region → Nat → Option (List Region)
  | [], _ => none
  | r :: iovs, num =>
    if r.len ≤ num then skipRegions iovs (num - r.len) else some ({ r with off := r.off + num, len := r.len - num } :: iovs)

/-- Where the loop is: about to call `Readv` with the rest of the vector, or at its end. -/
inductive ReadPc
  | readv (iovs : List Region)
  | returned
  | failed
  deriving DecidableEq

structure ReadLoop where
  /-- `packet.DataLength()` -/
  numtoread : Nat
  numread : Nat
  mem : Nat × Nat → Byte
  /-- what is still on the stream -/
  incoming : List Byte
  pc : ReadPc

namespace ReadLoop

/-- The condition of the loop, and the assertion behind it. -/
def again (r : ReadLoop) (iovs : List Region) : ReadLoop :=
  if r.numread < r.numtoread then { r with pc := .readv iovs }
  else if r.numread = r.numtoread then { r with pc := .returned }
  else { r with pc := .failed }

/-- The loop for a packet that `SendEnqueuePacket` has set up. -/
def start (count numChannels : Nat) (mem : Nat × Nat → Byte) (incoming : List Byte) : ReadLoop :=
  again { numtoread := u32 (count * numChannels), numread := 0, mem := mem, incoming := incoming, pc := .returned }
    ((List.range numChannels).map fun c => ⟨c, 0, count⟩)

/-- The loop up to its next call, when `n` bytes of the stream are there. -/
def step (r : ReadLoop) (n : Nat) : ReadLoop :=
  match r.pc with
  | .readv iovs =>
    let taken := r.incoming.take (min (cellsOf iovs).length n)
    let r := { r with mem := storeAll ((cellsOf iovs).zip taken) r.mem, incoming := r.incoming.drop taken.length,
                      numread := u32 (r.numread + u32 taken.length) }
    if r.numread = r.numtoread then { r with pc := .returned }
    else
      match skipRegions iovs (u32 taken.length) with
      | none => { r with pc := .failed }
      | some iovs => r.again iovs
  | .returned => r
  | .failed => r

/-- The loop after `i` calls, when `arrived j` bytes are there at call `j`. -/
def run (count numChannels : Nat) (mem : Nat × Nat → Byte) (incoming : List Byte) (arrived : Nat → Nat) : Nat → ReadLoop
  | 0 => start count numChannels mem incoming
  | i + 1 => (run count numChannels mem incoming arrived i).step (arrived i)

end ReadLoop

/-- The loop returns with byte `c * count + o` of the payload at offset `o` of channel `c`, everything else as it was and
the bytes behind the payload still on the stream, however the payload arrives. -/
def ReadsAll (count numChannels : Nat) : Prop :=
  ∀ (mem : Nat × Nat → Byte) (incoming : List Byte) (arrived : Nat → Nat), count * numChannels ≤ incoming.length →
    (∀ i, ∃ j, i ≤ j ∧ 0 < arrived j) →
    (∀ i, (ReadLoop.run count numChannels mem incoming arrived i).pc ≠ .failed) ∧
      ∃ i, (ReadLoop.run count numChannels mem incoming arrived i).pc = .returned ∧
        (ReadLoop.run count numChannels mem incoming arrived i).incoming = incoming.drop (count * numChannels) ∧
        ∀ c o, (ReadLoop.run count numChannels mem incoming arrived i).mem (c, o) =
          if c < numChannels ∧ o < count then incoming.getD (c * count + o) 0 else mem (c, o)

private theorem zip_take_right {α β : Type} (xs : List α) (ys : List β) (k : Nat) :
    xs.zip (ys.take k) = (xs.zip ys).take k := by
  induction k generalizing xs ys with
  | zero => simp
  | succ k ih => cases xs <;> cases ys <;> simp [ih]

private theorem skipRegions_spec {iovs : List Region} {num : Nat} (h : num < (cellsOf iovs).length) :
    ∃ iovs', skipRegions iovs num = some iovs' ∧ cellsOf iovs' = (cellsOf iovs).drop num := by
  induction iovs generalizing num with
  | nil => exact absurd h (Nat.not_lt_zero _)
  | cons r iovs ih =>
    have hlen : r.cells.length = r.len := by simp [Region.cells]
    have hcells : cellsOf (r :: iovs) = r.cells ++ cellsOf iovs := List.flatMap_cons
    rw [hcells, List.length_append, hlen] at h
    unfold skipRegions
    by_cases hle : r.len ≤ num
    · rw [if_pos hle]
      obtain ⟨iovs', hskip, hdrop⟩ := ih (show num - r.len < _ by omega)
      refine ⟨iovs', hskip, ?_⟩
      rw [hcells, List.drop_append, List.drop_of_length_le (by omega), List.nil_append, hlen, hdrop]
    · rw [if_neg hle]
      refine ⟨_, rfl, ?_⟩
      have hrest : ({ r with off := r.off + num, len := r.len - num } : Region).cells = r.cells.drop num := by
        apply List.ext_getElem
        · simp [Region.cells]
        · intro i _ _
          simp [Region.cells, Nat.add_assoc]
      rw [hcells, List.drop_append_of_le_length (by omega), ← hrest]
      rfl

/-- The cells into which the payload goes, in order. -/
def payloadCells (count numChannels : Nat) : List (Nat × Nat) :=
  (List.range (count * numChannels)).map fun k => (k / count, k % count)

private theorem cellsOf_start (count numChannels : Nat) :
    cellsOf ((List.range numChannels).map fun c => ⟨c, 0, count⟩) = payloadCells count numChannels := by
  induction numChannels with
  | zero => rfl
  | succ n ih =>
    rw [List.range_succ, List.map_append, cellsOf, List.flatMap_append, ← cellsOf, ih, payloadCells, payloadCells,
      Nat.mul_succ, List.range_add, List.map_append, List.map_map]
    congr 1
    rw [List.map_singleton, List.flatMap_singleton, Region.cells]
    refine List.map_congr_left fun i hi => ?_
    have hlt : i < count := List.mem_range.1 hi
    rw [Function.comp_apply, Nat.mul_add_div (by omega), Nat.mul_add_mod, Nat.div_eq_of_lt hlt, Nat.mod_eq_of_lt hlt]
    simp

private theorem nodup_payloadCells (count numChannels : Nat) : (payloadCells count numChannels).Nodup := by
  refine List.Nodup.map ?_ List.nodup_range
  intro k k' h
  rw [Prod.mk.injEq] at h
  rw [← Nat.div_add_mod k count, h.1, h.2, Nat.div_add_mod]

/-! #### Stores -/

theorem storeAll_append (xs ys : List ((Nat × Nat) × Byte)) (mem : Nat × Nat → Byte) :
    storeAll (xs ++ ys) mem = storeAll ys (storeAll xs mem) := List.foldl_append

private theorem storeAll_of_not_mem {cells : List (Nat × Nat)} {cell : Nat × Nat} (h : cell ∉ cells) (bytes : List Byte)
    (mem : Nat × Nat → Byte) : storeAll (cells.zip bytes) mem cell = mem cell := by
  induction cells generalizing bytes mem with
  | nil => rfl
  | cons a cells ih =>
    rw [List.mem_cons, not_or] at h
    cases bytes with
    | nil => rfl
    | cons b bytes =>
      show storeAll (cells.zip bytes) (Function.update mem a b) cell = mem cell
      rw [ih h.2, Function.update_of_ne h.1]

private theorem storeAll_getElem {cells : List (Nat × Nat)} (hn : cells.Nodup) {bytes : List Byte} (mem : Nat × Nat → Byte)
    {i : Nat} (hi : i < cells.length) (hb : i < bytes.length) : storeAll (cells.zip bytes) mem cells[i] = bytes[i] := by
  induction cells generalizing bytes mem i with
  | nil => exact absurd hi (Nat.not_lt_zero _)
  | cons a cells ih =>
    rw [List.nodup_cons] at hn
    cases bytes with
    | nil => exact absurd hb (Nat.not_lt_zero _)
    | cons b bytes =>
      show storeAll (cells.zip bytes) (Function.update mem a b) _ = _
      cases i with
      | zero => rw [List.getElem_cons_zero, storeAll_of_not_mem hn.1, Function.update_self, List.getElem_cons_zero]
      | succ i => exact ih hn.2 _ (Nat.lt_of_succ_lt_succ hi) (Nat.lt_of_succ_lt_succ hb)

/-- The memory after `n` bytes of the payload. -/
theorem storeAll_payload {count numChannels : Nat} {incoming : List Byte} {n : Nat} (hn : n ≤ incoming.length)
    (hle : n ≤ count * numChannels) (mem : Nat × Nat → Byte) (c o : Nat) :
    storeAll (((payloadCells count numChannels).zip incoming).take n) mem (c, o) =
      if c < numChannels ∧ o < count ∧ c * count + o < n then incoming.getD (c * count + o) 0 else mem (c, o) := by
  have hcells : (payloadCells count numChannels).take n = (List.range n).map fun k => (k / count, k % count) := by
    rw [payloadCells, ← List.map_take, List.take_range, Nat.min_eq_left hle]
  have hzip : ((payloadCells count numChannels).zip incoming).take n =
      ((List.range n).map fun k => (k / count, k % count)).zip (incoming.take n) := by
    rw [List.zip, List.take_zipWith, hcells]
  have hnodup : ((List.range n).map fun k => (k / count, k % count)).Nodup := by
    rw [← hcells]
    exact (nodup_payloadCells count numChannels).sublist (List.take_sublist ..)
  rw [hzip]
  by_cases h : c < numChannels ∧ o < count ∧ c * count + o < n
  · obtain ⟨hc, ho, hk⟩ := h
    rw [if_pos ⟨hc, ho, hk⟩]
    have hlength : c * count + o < ((List.range n).map fun k => (k / count, k % count)).length := by simpa using hk
    have hcell : (c, o) = ((List.range n).map fun k => (k / count, k % count))[c * count + o] := by
      rw [List.getElem_map, List.getElem_range, Nat.mul_comm c, Nat.mul_add_div (by omega), Nat.mul_add_mod,
        Nat.div_eq_of_lt ho, Nat.mod_eq_of_lt ho, Nat.add_zero]
    rw [hcell, storeAll_getElem hnodup _ hlength (by rw [List.length_take]; omega), List.getElem_take,
      List.getD_eq_getElem?_getD, List.getElem?_eq_getElem (by omega), Option.getD_some]
  · rw [if_neg h, storeAll_of_not_mem]
    rw [List.mem_map]
    rintro ⟨k, hk, hcell⟩
    rw [Prod.mk.injEq] at hcell
    obtain ⟨rfl, rfl⟩ := hcell
    have hk := List.mem_range.1 hk
    have hpos : 0 < count := by
      rcases Nat.eq_zero_or_pos count with rfl | hpos
      · rw [Nat.zero_mul] at hle
        omega
      · exact hpos
    refine h ⟨?_, Nat.mod_lt _ hpos, ?_⟩
    · rw [Nat.div_lt_iff_lt_mul hpos, Nat.mul_comm]
      omega
    · rw [Nat.mul_comm, Nat.div_add_mod]
      exact hk

namespace ReadLoop

variable {count numChannels n : Nat} {mem : Nat × Nat → Byte} {incoming : List Byte} {r : ReadLoop}

/-- The first `n` bytes of the payload have been stored, and the counters agree with that. -/
structure Reads (count numChannels : Nat) (mem : Nat × Nat → Byte) (incoming : List Byte) (r : ReadLoop) (n : Nat) :
    Prop where
  lt : count * numChannels < 2 ^ 32
  there : count * numChannels ≤ incoming.length
  total : r.numtoread = count * numChannels
  mem : r.mem = storeAll (((payloadCells count numChannels).zip incoming).take n) mem
  incoming : r.incoming = incoming.drop n
  count : match r.pc with
    | .readv iovs => r.numread = n ∧ n < count * numChannels ∧ cellsOf iovs = (payloadCells count numChannels).drop n
    | .returned => n = count * numChannels
    | .failed => False

@[simp] theorem incoming_again (r : ReadLoop) (iovs : List Region) : (r.again iovs).incoming = r.incoming := by
  unfold ReadLoop.again
  split
  · rfl
  · split <;> rfl

private theorem Reads.again {iovs : List Region} (hlt : count * numChannels < 2 ^ 32)
    (hthere : count * numChannels ≤ incoming.length)
    (ht : r.numtoread = count * numChannels) (hn : r.numread = n) (hle : n ≤ count * numChannels)
    (hmem : r.mem = storeAll (((payloadCells count numChannels).zip incoming).take n) mem)
    (hin : r.incoming = incoming.drop n) (hcells : cellsOf iovs = (payloadCells count numChannels).drop n) :
    (r.again iovs).Reads count numChannels mem incoming n := by
  unfold ReadLoop.again
  by_cases hless : r.numread < r.numtoread
  · rw [if_pos hless]
    exact ⟨hlt, hthere, ht, hmem, hin, hn, by omega, hcells⟩
  · rw [if_neg hless, if_pos (by omega)]
    exact ⟨hlt, hthere, ht, hmem, hin, show n = count * numChannels by omega⟩

private theorem reads_start (hlt : count * numChannels < 2 ^ 32) (hthere : count * numChannels ≤ incoming.length)
    (mem : Nat × Nat → Byte) : (start count numChannels mem incoming).Reads count numChannels mem incoming 0 :=
  .again hlt hthere (u32_of_lt hlt) rfl (Nat.zero_le _) rfl rfl (cellsOf_start ..)

/-- A step stores the bytes that have arrived. -/
theorem Reads.step (h : r.Reads count numChannels mem incoming n) (m : Nat) :
    ∃ k, (r.step m).Reads count numChannels mem incoming (n + k) ∧ (0 < m → r.pc ≠ .returned → 0 < k) := by
  obtain ⟨numtoread, numread, mem', incoming', pc⟩ := r
  obtain ⟨hlt, hthere, ht, hmem, hin, hcount⟩ := h
  cases pc with
  | readv iovs =>
    obtain ⟨hn, hless, hcells⟩ := hcount
    simp only at ht hmem hin hn
    subst hmem hin hn
    obtain ⟨k, hk⟩ : ∃ k, k = min (count * numChannels - numread) m := ⟨_, rfl⟩
    have hlen : (cellsOf iovs).length = count * numChannels - numread := by
      rw [hcells, List.length_drop, payloadCells, List.length_map, List.length_range]
    have htaken : ((incoming.drop numread).take k).length = k := by
      rw [List.length_take, List.length_drop]
      omega
    refine ⟨k, ?_, fun hm _ => by omega⟩
    have hstores : storeAll ((cellsOf iovs).zip ((incoming.drop numread).take k))
        (storeAll (((payloadCells count numChannels).zip incoming).take numread) mem) =
        storeAll (((payloadCells count numChannels).zip incoming).take (numread + k)) mem := by
      have hzip : (cellsOf iovs).zip ((incoming.drop numread).take k) =
          (((payloadCells count numChannels).zip incoming).drop numread).take k := by
        rw [hcells, zip_take_right]
        exact congrArg (List.take k) List.drop_zipWith.symm
      rw [hzip, ← storeAll_append, ← List.take_add]
    simp only [ReadLoop.step, hlen, ← hk, htaken, hstores]
    rw [u32_of_lt (show k < 2 ^ 32 by omega), u32_of_lt (by omega), List.drop_drop]
    by_cases hdone : numread + k = numtoread
    · rw [if_pos hdone]
      exact ⟨hlt, hthere, ht, rfl, rfl, show numread + k = count * numChannels by omega⟩
    · rw [if_neg hdone]
      obtain ⟨iovs', hskip, hdrop⟩ := skipRegions_spec (show k < (cellsOf iovs).length by omega)
      rw [hskip]
      refine .again hlt hthere ht rfl (by omega) rfl rfl ?_
      rw [hdrop, hcells, List.drop_drop]
  | returned => exact ⟨0, ⟨hlt, hthere, ht, hmem, hin, hcount⟩, fun _ h => absurd rfl h⟩
  | failed => exact hcount.elim

private theorem reads_run (hlt : count * numChannels < 2 ^ 32) (hthere : count * numChannels ≤ incoming.length)
    (mem : Nat × Nat → Byte) (arrived : Nat → Nat) (i : Nat) :
    ∃ n, (run count numChannels mem incoming arrived i).Reads count numChannels mem incoming n := by
  induction i with
  | zero => exact ⟨0, reads_start hlt hthere mem⟩
  | succ i ih =>
    obtain ⟨n, ih⟩ := ih
    obtain ⟨k, hk, -⟩ := ih.step (arrived i)
    exact ⟨n + k, hk⟩

/-- What is left on the stream. -/
theorem Reads.incoming_step (h : r.Reads count numChannels mem incoming n) (m : Nat) :
    (r.step m).incoming.length ≤ r.incoming.length ∧
      (0 < m → ¬ r.pc = .returned → (r.step m).incoming.length < r.incoming.length) := by
  obtain ⟨k, hk, hpos⟩ := h.step m
  rw [hk.incoming, h.incoming, List.length_drop, List.length_drop]
  refine ⟨by omega, fun hm hpc => ?_⟩
  have hk' := hpos hm hpc
  have hle : n < incoming.length := by
    have hcount := h.count
    have hthere := h.there
    obtain ⟨numtoread, numread, mem', incoming', pc⟩ := r
    cases pc with
    | readv iovs => exact Nat.lt_of_lt_of_le hcount.2.1 hthere
    | returned => exact absurd rfl hpc
    | failed => exact hcount.elim
  omega

theorem step_of_returned (h : r.pc = .returned) (m : Nat) : r.step m = r := by
  unfold ReadLoop.step
  rw [h]

/-- A loop whose counter has wrapped stops too early. -/
theorem returned_of_wrapped (hge : 2 ^ 32 ≤ count * numChannels) (hthere : count * numChannels ≤ incoming.length)
    (mem : Nat × Nat → Byte) (i : Nat) :
    (run count numChannels mem incoming (fun _ => max 1 (u32 (count * numChannels))) (i + 1)).pc = .returned ∧
      (run count numChannels mem incoming (fun _ => max 1 (u32 (count * numChannels))) (i + 1)).incoming =
        incoming.drop (u32 (count * numChannels)) := by
  induction i with
  | succ i ih =>
    have hstep := step_of_returned ih.1 (max 1 (u32 (count * numChannels)))
    rw [run, hstep]
    exact ih
  | zero =>
    obtain ⟨t, ht⟩ : ∃ t, t = u32 (count * numChannels) := ⟨_, rfl⟩
    have hlt : t < 2 ^ 32 := by rw [ht]; exact Nat.mod_lt _ (by decide)
    rw [run, run, start, ← ht]
    rcases Nat.eq_zero_or_pos t with rfl | hpos
    · exact ⟨rfl, rfl⟩
    · have hlen : (cellsOf ((List.range numChannels).map fun c => ⟨c, 0, count⟩)).length = count * numChannels := by
        rw [cellsOf_start, payloadCells, List.length_map, List.length_range]
      have htaken : (incoming.take t).length = t := by
        rw [List.length_take]
        omega
      rw [Nat.max_eq_right hpos, ReadLoop.again, if_pos (show 0 < t from hpos)]
      simp only [ReadLoop.step, hlen, Nat.min_eq_right (show t ≤ count * numChannels by omega), htaken]
      rw [u32_of_lt hlt, Nat.zero_add, u32_of_lt hlt, if_pos rfl]
      exact ⟨rfl, rfl⟩

end ReadLoop

/-- The read loop is right exactly when the number of bytes does not wrap. -/
theorem readsAll_iff (count numChannels : Nat) : ReadsAll count numChannels ↔ count * numChannels < 2 ^ 32 := by
  constructor
  · intro h
    by_contra hge
    obtain ⟨incoming, hlen⟩ : ∃ incoming : List Byte, incoming.length = count * numChannels :=
      ⟨List.replicate (count * numChannels) 0, List.length_replicate⟩
    obtain ⟨-, i, -, hin, -⟩ := h (fun _ => 0) incoming (fun _ => max 1 (u32 (count * numChannels))) (by omega)
      fun i => ⟨i, Nat.le_refl _, by omega⟩
    have hlt : u32 (count * numChannels) < 2 ^ 32 := Nat.mod_lt _ (by decide)
    have hleft := congrArg List.length hin
    cases i with
    | zero =>
      rw [ReadLoop.run, ReadLoop.start, ReadLoop.incoming_again, List.length_drop] at hleft
      simp only at hleft
      omega
    | succ i =>
      rw [(ReadLoop.returned_of_wrapped (by omega) (by omega) _ i).2, List.length_drop, List.length_drop] at hleft
      omega
  · intro hlt mem incoming arrived hthere harrived
    constructor
    · intro i hfailed
      obtain ⟨n, hn⟩ := ReadLoop.reads_run hlt hthere mem arrived i
      have hcount := hn.count
      rw [hfailed] at hcount
      exact hcount
    · obtain ⟨i, hi⟩ : ∃ i, (ReadLoop.run count numChannels mem incoming arrived i).pc = .returned := by
        refine exists_stop_of_fair (fun r : ReadLoop => r.pc = .returned) (fun r => r.incoming.length) (fun i => ?_)
          (fun i => ?_) harrived
        · obtain ⟨n, hn⟩ := ReadLoop.reads_run hlt hthere mem arrived i
          exact (hn.incoming_step (arrived i)).1
        · obtain ⟨n, hn⟩ := ReadLoop.reads_run hlt hthere mem arrived i
          exact (hn.incoming_step (arrived i)).2
      obtain ⟨n, hn⟩ := ReadLoop.reads_run hlt hthere mem arrived i
      have hcount := hn.count
      rw [hi] at hcount
      obtain rfl : n = count * numChannels := hcount
      refine ⟨i, hi, hn.incoming, fun c o => ?_⟩
      rw [hn.mem, storeAll_payload hthere (Nat.le_refl _)]
      have hiff : c < numChannels ∧ o < count ∧ c * count + o < count * numChannels ↔ c < numChannels ∧ o < count := by
        refine ⟨fun h => ⟨h.1, h.2.1⟩, fun h => ⟨h.1, h.2, ?_⟩⟩
        have := Nat.mul_le_mul_right count (show c + 1 ≤ numChannels from h.1)
        rw [Nat.add_mul, Nat.one_mul, Nat.mul_comm numChannels] at this
        omega
      simp only [hiff]

/-- Both loops move all bytes exactly when the number of bytes does not wrap. -/
theorem partial_transfer (iov : List (List Byte)) (count numChannels : Nat) :
    (WritesAll iov ↔ iov.flatten.length < 2 ^ 32) ∧ (ReadsAll count numChannels ↔ count * numChannels < 2 ^ 32) :=
  ⟨writesAll_iff iov, readsAll_iff count numChannels⟩

/-- A packet with two channels of `2 ^ 31` bytes: the total is the length of the header. -/
theorem not_forall_writesAll : ¬ ((∀ iov, WritesAll iov) ∧ ∀ count numChannels, ReadsAll count numChannels) := by
  intro h
  obtain ⟨channel, hlen⟩ : ∃ channel : List Byte, channel.length = 2 ^ 31 := ⟨List.replicate _ 0, List.length_replicate⟩
  have hlt := (writesAll_iff _).1 (h.1 [(PacketHeader.initPacket 0 .enqueue).pad, channel, channel])
  simp only [List.flatten_cons, List.flatten_nil, List.length_append, hlen, PacketHeader.length_pad, List.length_nil,
    headerLength] at hlt
  omega

end ProcessNetwork
