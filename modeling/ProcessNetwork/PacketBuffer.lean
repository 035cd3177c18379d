import ProcessNetwork.CircularQueue
import ProcessNetwork.Lib.Machine
import ProcessNetwork.PacketHeader

/-!
# `BufferedPacketEncoder`

The packet encoder that keeps its output in a `CircularQueue` (`CPN/PacketEncoder.cc`), as a machine whose actions are
the calls of its methods.  The record of a run says which bytes have been written and which have been taken, so that the
bytes taken and the contents of the queue are the bytes written (`Buffered`).

`WriteBytes` retries each section until `RawEnqueue` succeeds, and grows the queue in between.  `RawEnqueue` needs one
cell more than the section and the contents, and `Grow` does nothing when the queue has as many cells as they need: a
section that fills the ring to the last cell and is not longer than `maxThreshold` is retried for ever (`Sizes.Stuck`).
-/

namespace ProcessNetwork

namespace BufferedPacketEncoder

/-- The constructor of the buffer. -/
def cbuff : CircularQueue := .create 4092 4092

/-- `while (!cbuff.RawEnqueue(...)) cbuff.Grow(...)` for one section, with a bound on the number of passes. -/
def writeSection : Nat → CircularQueue → List Byte → Except Fault CircularQueue
  | 0, _, _ => .error .endless
  | fuel + 1, q, bytes => do
    match ← q.rawEnqueue (bytes.take (u32 bytes.length)) with
    | some q => .ok q
    | none =>
      let q ← q.grow (u32 (q.count + bytes.length)) (u32 bytes.length)
      writeSection fuel q bytes

def writeBytes (fuel : Nat) : CircularQueue → List (List Byte) → Except Fault CircularQueue
  | q, [] => .ok q
  | q, bytes :: iov => do
    let q ← writeSection fuel q bytes
    writeBytes fuel q iov

/-- The bytes behind the pointer that `GetEncodedBytes` returns. -/
def getEncodedBytes (q : CircularQueue) (amount : Nat) : Except Fault (List Byte × CircularQueue) := do
  let amount := if amount = 0 then q.maxThreshold else amount
  let amount := if q.count < amount then q.count else amount
  let q ← if q.maxThreshold < amount then q.grow 0 amount else .ok q
  match q.getRawDequeuePtr amount with
  | (some src, q) => .ok (slice q.buffer src amount, q)
  | (none, _) => .error .nullPointer

def releaseEncodedBytes (q : CircularQueue) (amount : Nat) : Except Fault CircularQueue := q.dequeue amount

/-! ### The machine -/

inductive Act
  | writeBytes (fuel : Nat) (iov : List (List Byte))
  | getEncodedBytes (amount : Nat)
  | releaseEncodedBytes (amount : Nat)

/-- The encoder; the bytes that it has offered and that have not been released; the bytes written, and those taken. -/
structure State where
  cbuff : CircularQueue
  offered : List Byte
  written : List Byte
  taken : List Byte

/-- The encoder, whose user releases at most what has been offered.  A call that fails or does not end has no next
state. -/
def encoder : Machine State Act where
  init s := s = ⟨cbuff, [], [], []⟩
  next s
    | .writeBytes fuel iov =>
      (writeBytes fuel s.cbuff iov).toOption.map fun q => { s with cbuff := q, written := s.written ++ iov.flatten }
    | .getEncodedBytes amount =>
      (getEncodedBytes s.cbuff amount).toOption.map fun r => { s with cbuff := r.2, offered := r.1 }
    | .releaseEncodedBytes amount =>
      if amount ≤ s.offered.length then
        (releaseEncodedBytes s.cbuff amount).toOption.map fun q =>
          { s with cbuff := q, offered := s.offered.drop amount, taken := s.taken ++ s.offered.take amount }
      else none

/-! ### Sizes -/

/-- The numbers on which it depends whether a section can be written. -/
structure Sizes where
  queueLength : Nat
  maxThreshold : Nat
  count : Nat
  deriving DecidableEq

namespace Sizes

/-- The sizes after a section of `len` bytes. -/
def add (z : Sizes) (len : Nat) : Sizes :=
  if z.count + len < z.queueLength then { z with count := z.count + len }
  else ⟨z.count + len + 1, max len z.maxThreshold, z.count + len⟩

/-- `RawEnqueue` wants the queue to grow, and `Grow` finds that it is long enough. -/
def Stuck (z : Sizes) (len : Nat) : Prop := z.count + len = z.queueLength ∧ len ≤ z.maxThreshold

/-- The size of the buffer does not wrap when the queue has to grow for the section. -/
def Fits (z : Sizes) (len : Nat) : Prop :=
  z.queueLength ≤ z.count + len → z.count + len + 1 + max len z.maxThreshold < 2 ^ 32

instance (z : Sizes) (len : Nat) : Decidable (z.Stuck len) := inferInstanceAs (Decidable (_ ∧ _))

instance (z : Sizes) (len : Nat) : Decidable (z.Fits len) := inferInstanceAs (Decidable (_ → _))

/-- A condition on each section of a list, at the sizes at which it is written. -/
def All (p : Sizes → Nat → Prop) (z : Sizes) : List (List Byte) → Prop
  | [] => True
  | bytes :: iov => p z bytes.length ∧ (z.add bytes.length).All p iov

end Sizes

instance Sizes.decidableAll (p : Sizes → Nat → Prop) [∀ z len, Decidable (p z len)] :
    ∀ (z : Sizes) (iov : List (List Byte)), Decidable (z.All p iov)
  | _, [] => .isTrue trivial
  | z, bytes :: iov =>
    have := decidableAll p (z.add bytes.length) iov
    inferInstanceAs (Decidable (_ ∧ _))

private theorem Sizes.All.and {p p' : Sizes → Nat → Prop} {z : Sizes} {iov : List (List Byte)} (h : z.All p iov)
    (h' : z.All p' iov) : z.All (fun z len => p z len ∧ p' z len) iov := by
  induction iov generalizing z with
  | nil => trivial
  | cons bytes iov ih => exact ⟨⟨h.1, h'.1⟩, ih h.2 h'.2⟩

/-- The sizes of a queue. -/
def sizes (q : CircularQueue) : Sizes := ⟨q.queueLength, q.maxThreshold, q.count⟩

variable {q : CircularQueue} {f bytes : List Byte}

/-- A section that fits and is not stuck is written, in one pass or two. -/
theorem writeSection_ok (h : q.Holds f) (hfits : (sizes q).Fits bytes.length) (hstuck : ¬ (sizes q).Stuck bytes.length) :
    ∃ q', q'.Holds (f ++ bytes) ∧ sizes q' = (sizes q).add bytes.length ∧
      ∀ fuel, writeSection fuel q bytes = .ok q' ∨ fuel < 2 ∧ writeSection fuel q bytes = .error .endless := by
  have hcount := h.count_eq
  have hs := h.size_lt
  have hm := h.maxThreshold_lt
  have hlen32 : bytes.length < 2 ^ 32 := by
    by_cases hgrow : q.queueLength ≤ q.count + bytes.length
    · have : q.count + bytes.length + 1 + max bytes.length q.maxThreshold < 2 ^ 32 := hfits hgrow
      omega
    · omega
  have htake : bytes.take (u32 bytes.length) = bytes := by rw [u32_of_lt hlen32, List.take_length]
  rcases h.rawEnqueue bytes with ⟨hlt, q', hq', hholds, hL, hM⟩ | ⟨hge, hq'⟩
  · refine ⟨q', hholds, ?_, fun fuel => ?_⟩
    · unfold Sizes.add sizes
      rw [if_pos (by dsimp only; omega), hholds.count_eq, List.length_append, hL, hM, hcount]
    · cases fuel with
      | zero => exact .inr ⟨by omega, rfl⟩
      | succ fuel =>
        refine .inl ?_
        rw [writeSection, htake, hq']
        rfl
  · have hroom : q.count + bytes.length + 1 + max bytes.length q.maxThreshold < 2 ^ 32 :=
      hfits (by unfold sizes; dsimp only; omega)
    have hgrow : q.queueLength < q.count + bytes.length ∨ q.maxThreshold < bytes.length := by
      by_contra hnot
      exact hstuck ⟨by unfold sizes; dsimp only; omega, by unfold sizes; dsimp only; omega⟩
    obtain ⟨q₁, hq₁, hholds₁, hL₁, hM₁⟩ := h.grow hgrow (by omega) (by omega)
    have hL₁' : q₁.queueLength = q.count + bytes.length + 1 := by omega
    rcases hholds₁.rawEnqueue bytes with ⟨hlt, q', hq₂, hholds, hL, hM⟩ | ⟨hge', -⟩
    · refine ⟨q', hholds, ?_, fun fuel => ?_⟩
      · unfold Sizes.add sizes
        rw [if_neg (by dsimp only; omega), hholds.count_eq, List.length_append, hL, hM, hL₁', hM₁, hcount]
      · have hpass : ∀ fuel, writeSection (fuel + 1) q bytes = writeSection fuel q₁ bytes := by
          intro fuel
          rw [writeSection, htake, hq']
          show (q.grow (u32 (q.count + bytes.length)) (u32 bytes.length) >>= _) = _
          rw [u32_of_lt (show q.count + bytes.length < 2 ^ 32 by omega), u32_of_lt hlen32, hq₁]
          rfl
        rcases fuel with - | - | fuel
        · exact .inr ⟨by omega, rfl⟩
        · exact .inr ⟨by omega, hpass 0⟩
        · refine .inl ?_
          rw [hpass, writeSection, htake, hq₂]
          rfl
    · omega

/-- A section that is stuck is retried for ever. -/
theorem writeSection_stuck (h : q.Holds f) (hstuck : (sizes q).Stuck bytes.length) (fuel : Nat) :
    writeSection fuel q bytes = .error .endless := by
  have hcount := h.count_eq
  have hs := h.size_lt
  have hm := h.maxThreshold_lt
  obtain ⟨hlen, hmax⟩ := hstuck
  have hlen' : q.count + bytes.length = q.queueLength := hlen
  have hmax' : bytes.length ≤ q.maxThreshold := hmax
  have htake : bytes.take (u32 bytes.length) = bytes := by rw [u32_of_lt (by omega), List.take_length]
  rcases h.rawEnqueue bytes with ⟨hlt, -⟩ | ⟨-, hfull⟩
  · omega
  · induction fuel with
    | zero => rfl
    | succ fuel ih =>
      rw [writeSection, htake, hfull]
      show (q.grow (u32 (q.count + bytes.length)) (u32 bytes.length) >>= _) = _
      have hgrow : q.grow (u32 (q.count + bytes.length)) (u32 bytes.length) = .ok q := by
        rw [u32_of_lt (show q.count + bytes.length < 2 ^ 32 by omega), u32_of_lt (by omega), CircularQueue.grow,
          if_pos ⟨by omega, hmax'⟩]
      rw [hgrow]
      exact ih

/-- A list of sections that fit and are not stuck is written. -/
theorem writeBytes_ok {iov : List (List Byte)} (h : q.Holds f)
    (hall : (sizes q).All (fun z len => z.Fits len ∧ ¬ z.Stuck len) iov) :
    ∃ q', q'.Holds (f ++ iov.flatten) ∧
      ∀ fuel, writeBytes fuel q iov = .ok q' ∨ fuel < 2 ∧ writeBytes fuel q iov = .error .endless := by
  induction iov generalizing q f with
  | nil => exact ⟨q, by simpa using h, fun _ => .inl rfl⟩
  | cons bytes iov ih =>
    obtain ⟨⟨hfits, hstuck⟩, hrest⟩ := hall
    obtain ⟨q₁, hholds₁, hsizes, hfuel₁⟩ := writeSection_ok h hfits hstuck
    rw [← hsizes] at hrest
    obtain ⟨q', hholds, hfuel⟩ := ih hholds₁ hrest
    refine ⟨q', by rw [List.flatten_cons, ← List.append_assoc]; exact hholds, fun fuel => ?_⟩
    rw [writeBytes]
    rcases hfuel₁ fuel with hok | ⟨hlt, herror⟩
    · rw [hok]
      exact hfuel fuel
    · rw [herror]
      exact .inr ⟨hlt, rfl⟩

/-- A list of sections one of which is stuck is not written, however long one waits. -/
theorem writeBytes_stuck {iov : List (List Byte)} (h : q.Holds f) (hfits : (sizes q).All Sizes.Fits iov)
    (hstuck : ¬ (sizes q).All (fun z len => ¬ z.Stuck len) iov) (fuel : Nat) :
    writeBytes fuel q iov = .error .endless := by
  induction iov generalizing q f with
  | nil => exact absurd trivial hstuck
  | cons bytes iov ih =>
    obtain ⟨hfits₁, hfits⟩ := hfits
    rw [writeBytes]
    by_cases hstuck₁ : (sizes q).Stuck bytes.length
    · rw [writeSection_stuck h hstuck₁ fuel]
      rfl
    · obtain ⟨q₁, hholds₁, hsizes, hfuel₁⟩ := writeSection_ok h hfits₁ hstuck₁
      rcases hfuel₁ fuel with hok | ⟨-, herror⟩
      · rw [hok]
        rw [← hsizes] at hfits
        exact ih hholds₁ hfits fun hall => hstuck ⟨hstuck₁, by rw [← hsizes]; exact hall⟩
      · rw [herror]
        rfl

/-- The growth of `GetEncodedBytes` does not make the size of the buffer wrap. -/
def GetFits (z : Sizes) (amount : Nat) : Prop :=
  z.maxThreshold < min amount z.count → z.queueLength + 1 + min amount z.count < 2 ^ 32

instance (z : Sizes) (amount : Nat) : Decidable (GetFits z amount) := inferInstanceAs (Decidable (_ → _))

/-- What is offered is the front of the contents. -/
theorem getEncodedBytes_ok (h : q.Holds f) {amount : Nat} (hfits : GetFits (sizes q) amount) :
    ∃ n q', getEncodedBytes q amount = .ok (f.take n, q') ∧ q'.Holds f ∧ (f ≠ [] → 0 < n) := by
  have hcount := h.count_eq
  have hpos := h.maxThreshold_pos
  have hm := h.maxThreshold_lt
  have hl := h.length_lt
  obtain ⟨n, hn⟩ : ∃ n, n = min (if amount = 0 then q.maxThreshold else amount) f.length := ⟨_, rfl⟩
  have hamount : (if q.count < if amount = 0 then q.maxThreshold else amount then q.count
      else if amount = 0 then q.maxThreshold else amount) = n := by
    rw [hn, hcount]
    generalize (if amount = 0 then q.maxThreshold else amount) = a
    split <;> omega
  have hposn : f ≠ [] → 0 < n := by
    intro hne
    have := List.length_pos_iff.2 hne
    rw [hn]
    split <;> omega
  unfold getEncodedBytes
  dsimp only
  rw [hamount]
  by_cases hgrow : q.maxThreshold < n
  · have hroom : q.queueLength + 1 + n < 2 ^ 32 := by
      have hne : amount ≠ 0 := by
        rintro rfl
        rw [if_pos rfl] at hn
        omega
      rw [if_neg hne] at hn
      have := hfits (by unfold sizes; dsimp only; omega)
      unfold sizes at this
      dsimp only at this
      omega
    obtain ⟨q₁, hq₁, hholds₁, hL₁, hM₁⟩ := @CircularQueue.Holds.grow q f h 0 n (.inr hgrow) (by omega) (by omega)
    obtain ⟨q', hptr, hslice, hholds, -, -⟩ := hholds₁.getRawDequeuePtr (show n ≤ f.length by omega) (by omega)
    refine ⟨n, q', ?_, hholds, hposn⟩
    rw [if_pos hgrow, hq₁]
    show (match q₁.getRawDequeuePtr n with | (some src, q) => _ | (none, _) => _) = _
    rw [hptr, ← hslice]
  · obtain ⟨q', hptr, hslice, hholds, -, -⟩ := h.getRawDequeuePtr (show n ≤ f.length by omega) (by omega)
    refine ⟨n, q', ?_, hholds, hposn⟩
    rw [if_neg hgrow]
    show (match q.getRawDequeuePtr n with | (some src, q) => _ | (none, _) => _) = _
    rw [hptr, ← hslice]

/-! ### Runs -/

/-- The calls that stay clear of the two defects: no section is stuck, and no size wraps. -/
def Clear (s : State) : Act → Prop
  | .writeBytes _ iov => (sizes s.cbuff).All (fun z len => z.Fits len ∧ ¬ z.Stuck len) iov
  | .getEncodedBytes amount => GetFits (sizes s.cbuff) amount
  | .releaseEncodedBytes _ => True

instance : ∀ s a, Decidable (Clear s a)
  | s, .writeBytes _ iov => Sizes.decidableAll _ (sizes s.cbuff) iov
  | _, .getEncodedBytes _ => inferInstanceAs (Decidable (_ → _))
  | _, .releaseEncodedBytes _ => .isTrue trivial

/-- The bytes taken and those in the queue are the bytes written, and what is offered is at the front of the queue. -/
structure Buffered (s : State) : Prop where
  holds : s.cbuff.Holds s.cbuff.contents
  written : s.written = s.taken ++ s.cbuff.contents
  offered : s.offered <+: s.cbuff.contents

private theorem Buffered.of_holds {s : State} (h : s.cbuff.Holds f) (hw : s.written = s.taken ++ f) (ho : s.offered <+: f) :
    Buffered s := by
  obtain rfl := h.contents_eq
  exact ⟨h, hw, ho⟩

private theorem holds_cbuff : cbuff.Holds [] := CircularQueue.holds_create (by decide) (by decide)

private theorem buffered_start : Buffered ⟨cbuff, [], [], []⟩ := .of_holds holds_cbuff rfl List.nil_prefix

private theorem Buffered.step {s t : State} {a : Act} (h : Buffered s) (hclear : Clear s a)
    (hn : encoder.next s a = some t) :
    Buffered t := by
  cases a with
  | writeBytes fuel iov =>
    obtain ⟨q', hholds, hfuel⟩ := writeBytes_ok h.holds hclear
    simp only [encoder, Option.map_eq_some_iff] at hn
    obtain ⟨q, hq, rfl⟩ := hn
    rcases hfuel fuel with hok | ⟨-, herror⟩
    · rw [hok] at hq
      obtain rfl : q' = q := Option.some.inj hq
      refine .of_holds hholds ?_ (h.offered.trans (List.prefix_append ..))
      show s.written ++ iov.flatten = _
      rw [h.written, List.append_assoc]
    · rw [herror] at hq
      cases hq
  | getEncodedBytes amount =>
    obtain ⟨n, q', hok, hholds, -⟩ := getEncodedBytes_ok h.holds hclear
    simp only [encoder, hok, Option.map_eq_some_iff] at hn
    obtain ⟨r, hr, rfl⟩ := hn
    obtain rfl : _ = r := Option.some.inj hr
    exact .of_holds hholds h.written (List.take_prefix ..)
  | releaseEncodedBytes amount =>
    simp only [encoder] at hn
    split at hn
    · rename_i hle
      rw [Option.map_eq_some_iff] at hn
      obtain ⟨q, hq, rfl⟩ := hn
      obtain ⟨rest, hrest⟩ := h.offered
      have hlen : amount ≤ s.cbuff.contents.length := by
        rw [← hrest, List.length_append]
        omega
      obtain ⟨q', hok, hholds, -, -⟩ := h.holds.dequeue hlen
      rw [releaseEncodedBytes, hok] at hq
      obtain rfl : q' = q := Option.some.inj hq
      rw [← hrest, List.drop_append_of_le_length hle] at hholds
      refine .of_holds hholds ?_ (List.prefix_append ..)
      show s.written = s.taken ++ s.offered.take amount ++ (s.offered.drop amount ++ rest)
      rw [h.written, ← hrest, List.append_assoc, ← List.append_assoc (s.offered.take amount), List.take_append_drop]
    · cases hn

private theorem buffered_of_reachableBy {s : State} (h : encoder.ReachableBy Clear s) : Buffered s :=
  h.invariant (fun _ hs => by rw [hs]; exact buffered_start) fun _ _ _ hI hok hn => hI.step hok hn

/-- Along a run whose calls stay clear of the defects, the bytes taken and those still in the queue are the bytes
written; and as long as no size wraps, `WriteBytes` returns, with its input behind what was there, exactly when none of
its sections is stuck. -/
theorem write_bytes_returns {s : State} (h : encoder.ReachableBy Clear s) :
    s.written = s.taken ++ s.cbuff.contents ∧ s.offered <+: s.cbuff.contents ∧
      ∀ iov, (sizes s.cbuff).All Sizes.Fits iov →
        ((∃ fuel q, writeBytes fuel s.cbuff iov = .ok q ∧ q.contents = s.cbuff.contents ++ iov.flatten) ↔
          (sizes s.cbuff).All (fun z len => ¬ z.Stuck len) iov) := by
  obtain ⟨hholds, hwritten, hoffered⟩ := buffered_of_reachableBy h
  refine ⟨hwritten, hoffered, fun iov hfits => ⟨fun ⟨fuel, q, hok, _⟩ => ?_, fun hclear => ?_⟩⟩
  · by_contra hstuck
    rw [writeBytes_stuck hholds hfits hstuck fuel] at hok
    cases hok
  · obtain ⟨q', hholds', hfuel⟩ := writeBytes_ok hholds (hfits.and hclear)
    rcases hfuel 2 with hok | ⟨hlt, -⟩
    · exact ⟨2, q', hok, hholds'.contents_eq⟩
    · omega

theorem write_bytes_returns_wrapped : ∃ s, encoder.ReachableBy Clear s ∧ s.taken.length = 4000 ∧
    ∃ fuel q, writeBytes fuel s.cbuff [List.replicate 64 7, List.replicate 64 8] = .ok q ∧
      q.contents = s.cbuff.contents ++ [List.replicate 64 7, List.replicate 64 8].flatten := by
  have hrun : ((encoder.runBy Clear ⟨cbuff, [], [], []⟩ [.writeBytes 2 [List.replicate 4050 0], .getEncodedBytes 4000,
      .releaseEncodedBytes 4000]).any fun s => s.taken.length = 4000 ∧ sizes s.cbuff = ⟨4093, 4092, 50⟩) = true := by
    decide +kernel
  obtain ⟨s, hs, hp⟩ := Machine.exists_reachableBy rfl hrun
  obtain ⟨htaken, hsizes⟩ := of_decide_eq_true hp
  refine ⟨s, hs, htaken, ((write_bytes_returns hs).2.2 _ ?_).2 ?_⟩
  · rw [hsizes]
    decide
  · rw [hsizes]
    decide

/-- A payload of 4029 bytes, with the header in front of it, fills the new buffer to the last cell. -/
theorem not_forall_write_bytes_returns : ¬ ∀ s, encoder.Reachable s → ∀ iov : List (List Byte),
    ∃ fuel q, writeBytes fuel s.cbuff iov = .ok q ∧ q.contents = s.cbuff.contents ++ iov.flatten := by
  intro h
  obtain ⟨data, hdata⟩ : ∃ data : List Byte, data.length = 4029 := ⟨List.replicate _ 0, List.length_replicate⟩
  obtain ⟨fuel, q, hok, -⟩ := h ⟨cbuff, [], [], []⟩ (.init rfl) [(PacketHeader.initPacket 4029 .enqueue).pad, data]
  have hsizes : sizes cbuff = ⟨4093, 4092, 0⟩ := by decide
  have hpad : (PacketHeader.initPacket 4029 .enqueue).pad.length = 64 := PacketHeader.length_pad _
  have hfits : (sizes cbuff).All Sizes.Fits [(PacketHeader.initPacket 4029 .enqueue).pad, data] := by
    rw [hsizes, Sizes.All, Sizes.All, hpad, hdata]
    decide
  have hstuck : ¬ (sizes cbuff).All (fun z len => ¬ z.Stuck len) [(PacketHeader.initPacket 4029 .enqueue).pad, data] := by
    rw [hsizes, Sizes.All, Sizes.All, hpad, hdata]
    decide
  cases hok.symm.trans (writeBytes_stuck holds_cbuff hfits hstuck fuel)

end BufferedPacketEncoder

end ProcessNetwork
