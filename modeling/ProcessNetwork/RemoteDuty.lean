import ProcessNetwork.LocalGrowth
import ProcessNetwork.RemoteShutdown

/-!
# What the action thread has left to do

The action thread sleeps until `pendingAction` is set.  Everything that gives it work sets the flag (`Stirs`), and when it
goes to sleep nothing is left to do (`Duty.Rested`).  So nothing is left to do whenever it sleeps and the flag is not set
(`Side.Diligent`).

When both action threads sleep so and nothing is on the way, a shutdown of one end has closed both (`shutdown_closes`).
-/

namespace ProcessNetwork

/-- The fields on which the work of the action thread depends. -/
structure Duty where
  mode : Mode
  count : Nat
  bytecount : Nat
  readerlength : Nat
  pendingAction : Bool
  pendingGrow : Bool
  sentEnd : Bool
  dead : Bool
  closed : Bool
  readshutdown : Bool
  writeshutdown : Bool

def RemoteQueue.duty (q : RemoteQueue) : Duty where
  mode := q.mode
  count := q.queue.count
  bytecount := q.bytecount
  readerlength := q.readerlength
  pendingAction := q.pendingAction
  pendingGrow := q.pendingGrow
  sentEnd := q.sentEnd
  dead := q.dead
  closed := q.closed
  readshutdown := q.readshutdown
  writeshutdown := q.writeshutdown

namespace Duty

variable (d : Duty)

/-- The node of this end is shut down. -/
def shut : Bool :=
  match d.mode with
  | .read => d.readshutdown
  | .write => d.writeshutdown

/-- The other end has announced that it is shut down. -/
def peerShut : Bool :=
  match d.mode with
  | .read => d.writeshutdown
  | .write => d.readshutdown

/-- There are bytes to send, or bytes to report as dequeued. -/
def hasData : Bool :=
  match d.mode with
  | .read => decide (d.count < d.bytecount)
  | .write => d.count ≠ 0 && decide (d.bytecount < d.readerlength) && !d.dead

/-- Nothing is left to do. -/
structure Rested : Prop where
  grow : d.pendingGrow = true → d.sentEnd = true
  data : d.sentEnd = false → d.hasData = false
  ends : d.shut = true → (d.mode = .write → d.count = 0) → d.sentEnd = true
  closes : d.peerShut = true → d.dead = true

/-- The socket is closed once the peer is known to be shut down. -/
def close (peerShut : Bool) : Duty :=
  if peerShut then { d with sentEnd := true, closed := true, dead := true } else d

/-- What `InternalCheckStatus` does in mode `read`. -/
def finishRead : Duty :=
  let d' := if d.sentEnd then d else { d with bytecount := min d.bytecount d.count, sentEnd := d.readshutdown }
  d'.close d'.writeshutdown

/-- What `InternalCheckStatus` does in mode `write` after its loop. -/
def finishWrite : Duty :=
  if !d.sentEnd && d.dead then d
  else { d with sentEnd := d.sentEnd || (d.writeshutdown && decide (d.count = 0)) }.close d.readshutdown

/-- The socket is closed last. -/
structure Orderly : Prop where
  closed : d.closed = true → d.dead = true
  dead : d.dead = true → d.sentEnd = true

variable {d d' : Duty}

private theorem Orderly.congr (h : d.Orderly) (h1 : d'.sentEnd = d.sentEnd) (h2 : d'.dead = d.dead)
    (h3 : d'.closed = d.closed) :
    d'.Orderly :=
  ⟨by rw [h2, h3]; exact h.closed, by rw [h1, h2]; exact h.dead⟩

private theorem Orderly.close (h : d.Orderly) (b : Bool) : (d.close b).Orderly := by
  unfold Duty.close
  split_ifs
  · exact ⟨fun _ => rfl, fun _ => rfl⟩
  · exact h

private theorem Orderly.finishRead (h : d.Orderly) : d.finishRead.Orderly := by
  unfold Duty.finishRead
  dsimp only
  refine Orderly.close ?_ _
  split_ifs with hs
  · exact h
  · exact ⟨h.closed, fun hd => absurd (h.dead hd) hs⟩

private theorem Orderly.finishWrite (h : d.Orderly) : d.finishWrite.Orderly := by
  unfold Duty.finishWrite
  split_ifs
  · exact h
  · have hends : ({ d with sentEnd := d.sentEnd || (d.writeshutdown && decide (d.count = 0)) } : Duty).Orderly :=
      ⟨h.closed, fun hd => Bool.or_eq_true_iff.2 (.inl (h.dead hd))⟩
    exact hends.close _

private theorem finishRead_rested (hm : d.mode = .read) (hg : d.pendingGrow = true → d.sentEnd = true) :
    d.finishRead.Rested := by
  obtain ⟨mode, count, bytecount, rl, pa, pg, sent, dead, closed, rs, ws⟩ := d
  obtain rfl : mode = .read := hm
  unfold finishRead close
  cases sent <;> cases ws <;> constructor <;> simp_all [shut, peerShut, hasData]

private theorem pendingAction_finishWrite (d : Duty) : d.finishWrite.pendingAction = d.pendingAction := by
  unfold finishWrite close
  split_ifs <;> rfl

private theorem finishWrite_rested (hm : d.mode = .write) (hg : d.pendingGrow = true → d.sentEnd = true)
    (hdead : d.dead = true → d.sentEnd = true) (hdata : d.sentEnd = false → d.hasData = false) :
    d.finishWrite.Rested := by
  obtain ⟨mode, count, bytecount, rl, pa, pg, sent, dead, closed, rs, ws⟩ := d
  obtain rfl : mode = .write := hm
  unfold finishWrite close
  cases sent <;> cases dead <;> cases rs <;> constructor <;> simp_all [shut, peerShut, hasData]

end Duty

namespace RemoteQueue

variable {q q' : RemoteQueue} {k : KernelBase} {len mt : Nat}

/-- The flags that only the end of `InternalCheckStatus` changes. -/
def flags (q : RemoteQueue) : Mode × Bool × Bool × Bool := (q.mode, q.sentEnd, q.dead, q.closed)

/-- The clocks, which only packets change. -/
def clocks (q : RemoteQueue) : Nat × Nat × Nat := (q.clock, q.readclock, q.writeclock)

private theorem flags_of_duty (h : q'.duty = q.duty) : q'.flags = q.flags :=
  congrArg (fun d : Duty => (d.mode, d.sentEnd, d.dead, d.closed)) h

/-- Neither the work of the action thread nor the clocks change. -/
structure Quiet (q q' : RemoteQueue) : Prop where
  duty : q'.duty = q.duty
  clocks : q'.clocks = q.clocks

/-- From `q` to `q'` the action thread gets no work, or is told. -/
structure Stirs (q q' : RemoteQueue) : Prop where
  flags : q'.flags = q.flags
  clocks : q'.clocks = q.clocks
  work : q'.duty = q.duty ∨ q'.pendingAction = true

private theorem Quiet.stirs (h : Quiet q q') : Stirs q q' := ⟨flags_of_duty h.duty, h.clocks, .inl h.duty⟩

private theorem Stirs.refl (q : RemoteQueue) : Stirs q q := ⟨rfl, rfl, .inl rfl⟩

private theorem Stirs.signal (h : Stirs q q') : Stirs q q'.signal := ⟨h.flags, h.clocks, .inr rfl⟩

private theorem Stirs.trans {q'' : RemoteQueue} (h : Stirs q q') (h' : Quiet q' q'') : Stirs q q'' :=
  ⟨(flags_of_duty h'.duty).trans h.flags, h'.clocks.trans h.clocks,
    h.work.imp h'.duty.trans (congrArg Duty.pendingAction h'.duty).trans⟩

private theorem stirs_finishGrow {malloc : Malloc} (h : q.finishGrow malloc len mt = .ok q') : Stirs q q' := by
  obtain ⟨r, hr, h⟩ := bind_eq_ok h
  obtain ⟨base, -, hr⟩ := bind_eq_ok hr
  cases hr
  cases h
  exact ⟨rfl, rfl, .inr rfl⟩

/-- The queue after `UnlockedGrow`. -/
def grownQueue : GrowResult RemoteQueue → RemoteQueue
  | .done q => q
  | .waits q => q

private theorem stirs_unlockedGrow {r : GrowResult RemoteQueue} (h : q.unlockedGrow k len mt = .ok r) :
    Stirs q (grownQueue r) := by
  unfold unlockedGrow at h
  split_ifs at h
  · cases h
    exact .refl q
  · cases h
    exact (Stirs.refl q).signal
  · cases hf : q.finishGrow k.malloc len mt with
    | error fault =>
      rw [hf] at h
      cases h
    | ok q' =>
      rw [hf] at h
      cases h
      exact stirs_finishGrow hf

private theorem quiet_clearRequest (q : RemoteQueue) : Quiet q (Side.clearRequest q) := by
  unfold Side.clearRequest
  cases hm : q.mode
  · exact ⟨by simp [duty, hm], rfl⟩
  · exact ⟨by simp [duty, hm], rfl⟩

private theorem duty_setupPacket (q : RemoteQueue) (p : Packet) : (q.setupPacket p).1.duty = q.duty := by
  unfold setupPacket
  cases hm : q.mode <;> simp [duty, hm]

private theorem duty_sendIf {send : RemoteQueue → RemoteQueue × Packet} {done : RemoteQueue → RemoteQueue}
    (h : (done (send q).1).duty = q.duty) (b : Bool) : (q.sendIf b send done).1.duty = q.duty := by
  unfold sendIf
  cases b with
  | true => exact h
  | false => rfl

private theorem duty_sendPendingBlock (q : RemoteQueue) : q.sendPendingBlock.1.duty = q.duty := by
  have hread := duty_setupPacket q (.init 0 .readBlock)
  have hwrite := duty_setupPacket q (.init 0 .writeBlock)
  unfold sendPendingBlock
  cases q.pendingBlock with
  | false => rfl
  | true =>
    cases hm : q.mode with
    | read => exact duty_sendIf (q := q) hread _
    | write => exact duty_sendIf (q := q) hwrite _

private theorem duty_sendPendingD4RTag (q : RemoteQueue) : q.sendPendingD4RTag.1.duty = q.duty := by
  have h := duty_setupPacket q (.init 0 .d4rTag)
  exact duty_sendIf (q := q) h _

private theorem duty_sendDequeue (hb : q.bytecount < 2 ^ 32) :
    (q.sendIf (q.bytecount > q.queue.count) sendDequeuePacket id).1.duty =
      { q.duty with bytecount := min q.bytecount q.queue.count } := by
  have h := duty_setupPacket q (.init 0 .dequeue)
  by_cases hlt : q.bytecount > q.queue.count
  · have hcount : sub32 q.bytecount (sub32 q.bytecount q.queue.count) = min q.bytecount q.queue.count := by
      rw [sub32_of_le (Nat.le_of_lt hlt) hb, sub32_of_le (Nat.sub_le _ _) hb]
      omega
    rw [sendIf, if_pos (decide_eq_true hlt), ← hcount]
    unfold sendDequeuePacket
    generalize q.setupPacket (.init 0 .dequeue) = r at h ⊢
    obtain ⟨q1, p1⟩ := r
    have hbytes : q1.bytecount = q.bytecount := congrArg Duty.bytecount h
    dsimp only [id] at h ⊢
    rw [← h, hbytes]
    rfl
  · rw [sendIf, if_neg (by simpa using hlt)]
    have hmin : min q.bytecount q.queue.count = q.bytecount := Nat.min_eq_left (Nat.not_lt.1 hlt)
    rw [hmin]
    rfl

/-- The announcement of the end. -/
theorem duty_sendEnd (q : RemoteQueue) (b : Bool) (type : PacketType) :
    (q.sendIf b (fun q => q.setupPacket (.init 0 type)) fun q => { q with sentEnd := true }).1.duty =
      { q.duty with sentEnd := q.sentEnd || b } := by
  have h := duty_setupPacket q (.init 0 type)
  unfold sendIf
  cases b with
  | true =>
    rw [Bool.or_true, ← h]
    rfl
  | false =>
    rw [Bool.or_false]
    rfl

private theorem duty_sendPendingGrow (q : RemoteQueue) :
    q.sendPendingGrow.1.duty = { q.duty with pendingGrow := q.pendingGrow && q.sentEnd } := by
  have h := duty_setupPacket q (.init 0 .grow)
  unfold sendPendingGrow sendIf
  cases hp : q.pendingGrow <;> cases hs : q.sentEnd
  · simp [duty, hp]
  · simp [duty, hp]
  · rw [show (true && !false) = true from rfl, Bool.and_false, ← h]
    rfl
  · simp [duty, hp]

private theorem duty_andThen {r : Sends} {f : RemoteQueue → Sends} {g : Duty → Duty} {d : Duty} (hr : r.1.duty = d)
    (hf : ∀ q, (f q).1.duty = g q.duty) : (r.andThen f).1.duty = g d :=
  (hf r.1).trans (congrArg g hr)

/-- The end of the handshake, when the peer is shut down. -/
private theorem duty_close (q : RemoteQueue) (b : Bool) (type : PacketType) :
    (if b then (q.sendIf (!q.sentEnd) (fun q => q.setupPacket (.init 0 type)) fun q =>
      { q with sentEnd := true }).andThen fun q => (q.close, []) else (q, [])).1.duty = q.duty.close b := by
  cases b with
  | false => rfl
  | true =>
    have h := duty_sendEnd q (!q.sentEnd) type
    rw [Bool.or_not_self] at h
    exact duty_andThen (f := fun q => (q.close, [])) (g := fun d => { d with closed := true, dead := true }) h fun _ => rfl

private theorem duty_finishRead (hb : q.bytecount < 2 ^ 32) : q.finishRead.1.duty = q.duty.finishRead := by
  unfold finishRead Duty.finishRead
  dsimp only
  refine duty_andThen (g := fun d => d.close d.writeshutdown) ?_ fun q => duty_close q q.writeshutdown .endOfRead
  by_cases hs : q.sentEnd = true
  · rw [if_pos hs, if_pos (show q.duty.sentEnd = true from hs)]
  · have hs' : q.sentEnd = false := by simpa using hs
    rw [if_neg hs, if_neg (show ¬q.duty.sentEnd = true from hs)]
    have h := duty_andThen (g := id) (duty_andThen (g := id) (duty_sendDequeue hb) duty_sendPendingBlock)
      duty_sendPendingD4RTag
    refine (duty_andThen (g := fun d => { d with sentEnd := d.sentEnd || d.readshutdown }) h fun q =>
      duty_sendEnd q q.readshutdown .endOfRead).trans ?_
    simp [duty, hs']

private theorem duty_finishWrite (q : RemoteQueue) : q.finishWrite.1.duty = q.duty.finishWrite := by
  unfold finishWrite Duty.finishWrite
  by_cases hd : (!q.sentEnd && q.dead) = true
  · rw [if_pos hd, if_pos (show (!q.duty.sentEnd && q.duty.dead) = true from hd)]
  · rw [if_neg hd, if_neg (show ¬(!q.duty.sentEnd && q.duty.dead) = true from hd)]
    have h : (if q.sentEnd then (q, []) else q.sendPendingBlock.andThen sendPendingD4RTag : Sends).1.duty = q.duty := by
      split_ifs
      · rfl
      · exact duty_andThen (g := id) (duty_sendPendingBlock q) duty_sendPendingD4RTag
    have h := duty_andThen (g := fun d => { d with
      sentEnd := d.sentEnd || (d.writeshutdown && !d.sentEnd && decide (d.count = 0)) }) h fun q =>
      duty_sendEnd q (q.writeshutdown && !q.sentEnd && decide (q.queue.count = 0)) .endOfWrite
    refine (duty_andThen (g := fun d => d.close d.readshutdown) h fun q =>
      duty_close q q.readshutdown .endOfWrite).trans ?_
    cases hs : q.sentEnd <;> simp [duty, hs]

theorem quiet_notifyFreespace (q : RemoteQueue) : Quiet q (Queue.notifyFreespace q) := by
  obtain ⟨cond, hq⟩ := notifyFreespace_eq q
  rw [hq]
  exact ⟨rfl, rfl⟩

theorem quiet_notifyData (q : RemoteQueue) : Quiet q (Queue.notifyData q) := by
  obtain ⟨cond, hq⟩ := notifyData_eq q
  rw [hq]
  exact ⟨rfl, rfl⟩

/-! ### Packets -/

theorem ensure_bind_eq_ok {b : Bool} {text : String} {x : Except Fault RemoteQueue}
    (h : (do ensure b text; x) = .ok q') : x = .ok q' := by
  obtain ⟨_, -, h⟩ := bind_eq_ok h
  exact h

private theorem flags_growTo {malloc : Malloc} (h : q.growTo malloc len mt = .ok q') : q'.flags = q.flags := by
  obtain ⟨base, -, h⟩ := bind_eq_ok h
  cases h
  rfl

private theorem flags_firePacket {p : Packet} (h : q.firePacket k p = .ok q') : q'.flags = q.flags := by
  unfold firePacket at h
  cases ht : p.type with
  | enqueue => simp [ht] at h
  | idReader => simp [ht] at h
  | idWriter => simp [ht] at h
  | d4rTag =>
    simp only [ht, Except.ok.injEq] at h
    exact h ▸ rfl
  | grow =>
    simp only [ht] at h
    exact flags_growTo (q := q.updateClock p) h
  | _ =>
    simp only [ht] at h
    have h := ensure_bind_eq_ok (ensure_bind_eq_ok h)
    cases h
    rfl

private theorem flags_beginEnqueuePacket {malloc : Malloc} {p : Packet} {ptrs : List Ptr}
    (h : q.beginEnqueuePacket malloc p = .ok (q', ptrs)) : q'.flags = q.flags := by
  obtain ⟨_, -, h⟩ := bind_eq_ok h
  obtain ⟨_, -, h⟩ := bind_eq_ok h
  obtain ⟨base, -, h⟩ := bind_eq_ok h
  obtain ⟨ptrs, -, h⟩ := bind_eq_ok h
  cases h
  rfl

private theorem flags_endEnqueuePacket {count : Nat} (h : q.endEnqueuePacket count = .ok q') : q'.flags = q.flags := by
  obtain ⟨base, -, h⟩ := bind_eq_ok h
  cases h
  exact (flags_of_duty (quiet_notifyData _).duty).trans rfl

private theorem flags_beginSendEnqueue {count : Nat} {p : Packet} {ptrs : List Ptr}
    (h : q.beginSendEnqueue count = .ok (q', p, ptrs)) :
    q'.flags = q.flags ∧ q'.pendingGrow = q.pendingGrow ∧ q'.pendingAction = q.pendingAction := by
  cases hm : q.mode <;>
  · simp only [beginSendEnqueue, setupPacket, hm] at h
    obtain ⟨ptrs', -, h⟩ := bind_eq_ok h
    cases h
    exact ⟨by simp only [flags, hm], rfl, rfl⟩

end RemoteQueue

/-! ### The node -/

namespace Side

open RemoteQueue (Stirs)

variable {k : KernelBase} {s t : Side} {q : RemoteQueue} {thresh chan : Nat} {grown : Bool}

/-- The action thread stays where it is, and is told of new work. -/
structure Stirring (s t : Side) : Prop where
  action : t.action = s.action
  queue : Stirs s.q t.q

theorem stirring_nodeGrow {len mt : Nat} {after : NodePc} : Stirring s (s.nodeGrow k len mt after) := by
  unfold Side.nodeGrow
  cases hg : s.q.unlockedGrow k len mt with
  | error fault => exact ⟨rfl, rfl, rfl, .inl rfl⟩
  | ok r =>
    have hs := RemoteQueue.stirs_unlockedGrow hg
    cases r with
    | done q => exact ⟨rfl, hs⟩
    | waits q => exact ⟨rfl, hs⟩

private theorem stirring_waitRemote {saveclock : Nat} (h : Stirs s.q q) :
    Stirring s (({ s with q := q } : Side).waitRemote thresh chan grown saveclock) := by
  unfold Side.waitRemote
  split_ifs
  · exact ⟨rfl, h⟩
  · exact ⟨rfl, h⟩
  · exact ⟨rfl, h.trans (RemoteQueue.quiet_clearRequest q)⟩

theorem stirring_wakes : Stirring s (s.wakes k) := by
  unfold Side.wakes
  split
  · exact stirring_waitRemote (.refl s.q)
  · split_ifs
    · exact ⟨rfl, rfl, rfl, .inl rfl⟩
    · exact ⟨rfl, (RemoteQueue.quiet_clearRequest s.q).stirs⟩
  · unfold Side.resumeGrow
    split_ifs
    · exact ⟨rfl, rfl, rfl, .inr rfl⟩
    · split
      · exact ⟨rfl, rfl, rfl, .inl rfl⟩
      · exact ⟨rfl, RemoteQueue.stirs_finishGrow ‹_›⟩
  · exact ⟨rfl, rfl, rfl, .inl rfl⟩

private theorem stirs_growPass (q : RemoteQueue) (len mt : Nat) : (Queue.growPass k q len mt).All (Stirs q) := by
  unfold Queue.growPass
  cases hg : Queue.unlockedGrow k q len mt with
  | error fault => trivial
  | ok r =>
    have hs := RemoteQueue.stirs_unlockedGrow hg
    cases r with
    | done q => exact hs.signal
    | waits q => exact hs

private theorem stirs_dequeuePass (k : KernelBase) (q : RemoteQueue) (thresh chan : Nat) :
    (Queue.dequeuePass k q thresh chan).All (Stirs q) := by
  unfold Queue.dequeuePass
  cases (Queue.threshold q).internalGetRawDequeuePtr thresh chan with
  | error fault => trivial
  | ok ptr =>
    cases ptr with
    | some ptr => exact ⟨rfl, rfl, .inl rfl⟩
    | none =>
      dsimp only
      split_ifs
      · exact ⟨rfl, rfl, .inl rfl⟩
      · exact ⟨rfl, rfl, .inl rfl⟩
      · exact stirs_growPass q _ _
      · exact stirs_growPass q _ _
      · exact ⟨rfl, rfl, .inl rfl⟩

private theorem stirs_enqueuePass (k : KernelBase) (q : RemoteQueue) (thresh chan : Nat) (grown : Bool) :
    (Queue.enqueuePass k q thresh chan grown).All fun r => Stirs q r.1 := by
  unfold Queue.enqueuePass
  cases (Queue.threshold q).internalGetRawEnqueuePtr thresh chan with
  | error fault => trivial
  | ok ptr =>
    cases ptr with
    | some ptr => exact ⟨rfl, rfl, .inl rfl⟩
    | none =>
      dsimp only
      split_ifs
      · exact ⟨rfl, rfl, .inl rfl⟩
      · exact .map (P := fun r : RemoteQueue × Bool => Stirs q r.1) (stirs_growPass q _ _)
      · exact .map (P := fun r : RemoteQueue × Bool => Stirs q r.1) (stirs_growPass q _ _)
      · exact ⟨rfl, rfl, .inl rfl⟩

theorem stirs_passOf (k : KernelBase) (q : RemoteQueue) (thresh chan : Nat) (grown : Bool) :
    (passOf k q thresh chan grown).All fun r => Stirs q r.1 := by
  unfold passOf
  cases q.mode with
  | read => exact .map (P := fun r : RemoteQueue × Bool => Stirs q r.1) (stirs_dequeuePass k q thresh chan)
  | write => exact stirs_enqueuePass k q thresh chan grown

theorem stirring_pass : Stirring s (s.pass k thresh chan grown) := by
  have h := stirs_passOf k s.q thresh chan grown
  unfold Side.pass
  split <;> rename_i heq <;> rw [heq] at h
  · exact ⟨rfl, h⟩
  · exact ⟨rfl, h⟩
  · exact ⟨rfl, h⟩
  · exact ⟨rfl, h⟩
  · exact ⟨rfl, h⟩
  · exact stirring_waitRemote ⟨h.flags, h.clocks, .inr rfl⟩
  · exact ⟨rfl, rfl, rfl, .inl rfl⟩

theorem stirring_getRawPtr : Stirring s (s.getRawPtr thresh chan) := by
  unfold Side.getRawPtr
  split
  · split_ifs <;> exact ⟨rfl, rfl, rfl, .inl rfl⟩
  · split_ifs <;> exact ⟨rfl, rfl, rfl, .inl rfl⟩

theorem stirring_write {p : HeldPtr} {off : Nat} {b : Byte} : Stirring s (s.write p off b) := by
  unfold Side.write
  split
  · exact ⟨rfl, rfl, rfl, .inl rfl⟩
  · rename_i base hb
    unfold ThresholdQueue.store at hb
    split_ifs at hb
    · cases hb
      exact ⟨rfl, rfl, rfl, .inl rfl⟩
    · obtain ⟨old, -, rfl⟩ := Option.map_eq_some_iff.1 hb
      exact ⟨rfl, rfl, rfl, .inl rfl⟩

private theorem stirring_dequeue {n : Nat} : Stirring s (s.dequeue n) := by
  unfold Side.dequeue
  dsimp only
  split_ifs
  · exact ⟨rfl, rfl, rfl, .inl rfl⟩
  · have h : Stirs s.q
        ({ s.q with
          toThresholdQueue := { s.q.toThresholdQueue with dequeuethresh := 0, indequeue := false }.internalDequeue n } :
          RemoteQueue).signal := ⟨rfl, rfl, .inr rfl⟩
    exact ⟨rfl, h.trans (RemoteQueue.quiet_notifyFreespace _)⟩

private theorem stirring_enqueue {n : Nat} : Stirring s (s.enqueue n) := by
  unfold Side.enqueue
  dsimp only
  split_ifs
  · exact ⟨rfl, rfl, rfl, .inl rfl⟩
  · split
    · exact ⟨rfl, rfl, rfl, .inl rfl⟩
    · rename_i base _
      have h : Stirs s.q ({ s.q with toThresholdQueue := base } : RemoteQueue).signal := ⟨rfl, rfl, .inr rfl⟩
      exact ⟨rfl, h.trans (RemoteQueue.quiet_notifyData _)⟩

theorem stirring_commit {n : Nat} : Stirring s (s.commit n) := by
  unfold Side.commit
  split
  · exact stirring_dequeue
  · exact stirring_enqueue

theorem stirring_shutdown : Stirring s s.shutdown := by
  unfold Side.shutdown
  split
  · exact ⟨rfl, rfl, rfl, .inr rfl⟩
  · exact ⟨rfl, rfl, rfl, .inr rfl⟩

end Side

/-! ### The action thread -/

/-- The action thread is in the loop that sends enqueue packets. -/
def ActionPc.sends : ActionPc → Bool
  | .sendLoop => true
  | .sending .. => true
  | _ => false

namespace Side

variable {k : KernelBase} {s t : Side}

/-- Nothing is left to do when the action thread sleeps and the flag is not set. -/
structure Diligent (s : Side) : Prop where
  orderly : s.q.duty.Orderly
  exited : s.action = .exited → s.q.dead = true
  idle : s.action = .idle → s.q.pendingAction = false → s.q.duty.Rested
  /-- The pending grow packet has been sent before the loop. -/
  sends : s.action.sends = true → s.q.pendingGrow = true → s.q.pendingAction = true

namespace Diligent

private theorem stirring (h : s.Diligent) (hs : Stirring s t) : t.Diligent := by
  obtain ⟨hact, hf, -, hq⟩ := hs
  simp only [RemoteQueue.flags, Prod.mk.injEq] at hf
  obtain ⟨-, h1, h2, h3⟩ := hf
  have hexit : t.action = .exited → t.q.dead = true := by
    rw [hact, h2]
    exact h.exited
  rcases hq with hq | hp
  · have h4 : t.q.pendingAction = s.q.pendingAction := congrArg Duty.pendingAction hq
    have h5 : t.q.pendingGrow = s.q.pendingGrow := congrArg Duty.pendingGrow hq
    refine ⟨h.orderly.congr h1 h2 h3, hexit, ?_, ?_⟩
    · rw [hact, h4, hq]
      exact h.idle
    · rw [hact, h4, h5]
      exact h.sends
  · exact ⟨h.orderly.congr h1 h2 h3, hexit, fun _ h => absurd (hp.symm.trans h) (by decide), fun _ _ => hp⟩

/-- The action thread does not end its work. -/
theorem works (h : s.Diligent) (hf : t.q.flags = s.q.flags) (hidle : t.action ≠ .idle) (hexit : t.action ≠ .exited)
    (hs : t.action.sends = true → t.q.pendingGrow = true → t.q.pendingAction = true) : t.Diligent := by
  simp only [RemoteQueue.flags, Prod.mk.injEq] at hf
  obtain ⟨-, h1, h2, h3⟩ := hf
  exact ⟨h.orderly.congr h1 h2 h3, fun he => absurd he hexit, fun hi => absurd hi hidle, hs⟩

private theorem check (h : s.Diligent) : s.check.Diligent := by
  unfold Side.check
  by_cases hd : s.q.dead = true
  · rw [if_pos hd]
    exact ⟨h.orderly, fun _ => hd, nofun, nofun⟩
  · rw [if_neg hd]
    have hc : ¬s.q.closed = true := fun hc => hd (h.orderly.closed hc)
    dsimp only
    split_ifs
    · exact h.stirring ⟨rfl, rfl, rfl, .inl rfl⟩
    · exact h.works rfl nofun nofun nofun
    · exact h.stirring ⟨rfl, rfl, rfl, .inl rfl⟩
    · exact h.works rfl nofun nofun nofun

private theorem readPacket (h : s.Diligent) {p : Packet} (hact : s.action = .reading) : (s.readPacket k p).Diligent := by
  unfold Side.readPacket
  split_ifs
  · split
    · exact h.stirring ⟨rfl, rfl, rfl, .inl rfl⟩
    · exact h.works (RemoteQueue.flags_beginEnqueuePacket ‹_›) nofun nofun nofun
  · split
    · exact h.stirring ⟨rfl, rfl, rfl, .inl rfl⟩
    · refine h.works (RemoteQueue.flags_firePacket ‹_›) ?_ ?_ ?_ <;> dsimp only <;> rw [hact] <;> nofun

private theorem receive (h : s.Diligent) {p : Packet} {ptrs : List Ptr} {n : Nat} {b : Byte} :
    (s.receive p ptrs n b).Diligent := by
  unfold Side.receive
  split
  · exact h.stirring ⟨rfl, rfl, rfl, .inl rfl⟩
  · exact h.works rfl nofun nofun nofun

private theorem received (h : s.Diligent) {p : Packet} : (s.received p).Diligent := by
  unfold Side.received
  split
  · exact h.stirring ⟨rfl, rfl, rfl, .inl rfl⟩
  · exact h.works (RemoteQueue.flags_endEnqueuePacket ‹_›) nofun nofun nofun

private theorem send (h : s.Diligent) {p : Packet} {ptrs : List Ptr} {n : Nat} (hact : s.action = .sending p ptrs n) :
    (s.send p ptrs n).1.Diligent := by
  unfold Side.send
  split
  · exact h.stirring ⟨rfl, rfl, rfl, .inl rfl⟩
  · exact h.works rfl nofun nofun fun _ => h.sends (by rw [hact]; rfl)

private theorem sent (h : s.Diligent) {p : Packet} {ptrs : List Ptr} {n : Nat} (hact : s.action = .sending p ptrs n) :
    (s.sent p).Diligent := by
  obtain ⟨cond, hcond⟩ := RemoteQueue.notifyFreespace_eq
    { s.q with
      toThresholdQueue := { s.q.toThresholdQueue with indequeue := false }.internalDequeue p.count
      bytecount := u32 (s.q.bytecount + p.count) }
  unfold Side.sent RemoteQueue.endSendEnqueue
  dsimp only
  rw [hcond]
  exact h.works rfl nofun nofun fun _ => h.sends (by rw [hact]; rfl)

private theorem readDone (h : s.Diligent) (hs : SideSound k s) (eof : Bool) : (s.readDone eof).1.Diligent := by
  have hd := RemoteQueue.duty_sendPendingGrow { s.q with eof := s.q.eof || eof }
  unfold Side.readDone
  dsimp only
  generalize RemoteQueue.sendPendingGrow _ = r at hd ⊢
  have hsent : r.1.sentEnd = s.q.sentEnd := congrArg Duty.sentEnd hd
  have horder : r.1.duty.Orderly := by
    rw [hd]
    exact ⟨h.orderly.closed, h.orderly.dead⟩
  have hgrow : r.1.duty.pendingGrow = true → r.1.duty.sentEnd = true := by
    rw [hd]
    exact fun hg => (Bool.and_eq_true_iff.1 hg).2
  cases hm : s.q.mode with
  | read =>
    have hmode : r.1.duty.mode = .read := (congrArg Duty.mode hd).trans hm
    have hbytes : r.1.bytecount < 2 ^ 32 := by
      rw [show r.1.bytecount = s.q.bytecount from congrArg Duty.bytecount hd]
      exact hs.bytecount
    have hfin := RemoteQueue.duty_finishRead hbytes
    refine ⟨?_, nofun, fun _ _ => ?_, nofun⟩
    · show (r.1.finishRead.1.duty).Orderly
      rw [hfin]
      exact horder.finishRead
    · show (r.1.finishRead.1.duty).Rested
      rw [hfin]
      exact Duty.finishRead_rested hmode hgrow
  | write =>
    have hmode : r.1.duty.mode = .write := (congrArg Duty.mode hd).trans hm
    dsimp only
    split_ifs with hse
    · have hfin := RemoteQueue.duty_finishWrite r.1
      refine ⟨?_, nofun, fun _ _ => ?_, nofun⟩
      · show (r.1.finishWrite.1.duty).Orderly
        rw [hfin]
        exact horder.finishWrite
      · show (r.1.finishWrite.1.duty).Rested
        rw [hfin]
        exact Duty.finishWrite_rested hmode hgrow horder.dead fun h => absurd (h.symm.trans hse) (by decide)
    · exact ⟨horder, nofun, nofun, fun _ hg => absurd (hgrow hg) hse⟩

private theorem sendPass (h : s.Diligent) (hs : SideSound k s) (hact : s.action = .sendLoop) : s.sendPass.1.Diligent := by
  have hat := hs.action
  rw [hact] at hat
  obtain ⟨hm, hsent⟩ := hat
  have hgrow := h.sends (by rw [hact]; rfl)
  rcases s.sendPass_cases with ⟨-, heq | ⟨fault, -, heq⟩ | ⟨q, p, ptrs, hb, heq⟩⟩ | ⟨hcan, heq⟩
  · rw [heq]
    exact h
  · rw [heq]
    exact h.stirring ⟨rfl, rfl, rfl, .inl rfl⟩
  · rw [heq]
    obtain ⟨hf, hg, ha⟩ := RemoteQueue.flags_beginSendEnqueue hb
    exact h.works hf nofun nofun fun _ hp => ha.trans (hgrow (hg.symm.trans hp))
  · rw [heq]
    have hfin := RemoteQueue.duty_finishWrite s.q
    refine ⟨?_, nofun, fun _ hp => ?_, nofun⟩
    · show (s.q.finishWrite.1.duty).Orderly
      rw [hfin]
      exact h.orderly.finishWrite
    · show (s.q.finishWrite.1.duty).Rested
      have hp : s.q.finishWrite.1.duty.pendingAction = false := hp
      have hdata : s.q.duty.hasData = false := by
        unfold Duty.hasData
        rw [show s.q.duty.mode = .write from hm]
        exact hcan
      rw [hfin] at hp ⊢
      refine Duty.finishWrite_rested hm (fun hg => ?_) h.orderly.dead fun _ => hdata
      have hset : s.q.duty.pendingAction = true := hgrow hg
      exact absurd (hset.symm.trans ((Duty.pendingAction_finishWrite _).symm.trans hp)) (by decide)

/-- Every step of a side keeps it diligent. -/
theorem next (h : s.Diligent) (hs : SideSound k s) {inbox : Wire} {peerEnded : Bool} {act : SideAct} {r : SideStep}
    (hn : sideNext k s inbox peerEnded act = some r) : r.side.Diligent := by
  cases sideMove_of_sideNext hn with
  | getRawPtr => exact h.stirring stirring_getRawPtr
  | pass => exact h.stirring stirring_pass
  | wakes => exact h.stirring stirring_wakes
  | write => exact h.stirring stirring_write
  | commit => exact h.stirring stirring_commit
  | grow => exact h.stirring stirring_nodeGrow
  | shutdown => exact h.stirring stirring_shutdown
  | detect => exact h.stirring stirring_nodeGrow
  | deadlock => exact h.stirring ⟨rfl, rfl, rfl, .inr rfl⟩
  | tagChanged => exact h.stirring ⟨rfl, rfl, rfl, .inr rfl⟩
  | tick => exact h.stirring ⟨rfl, rfl, rfl, .inr rfl⟩
  | check => exact h.check
  | readPacket _ _ hact => exact h.readPacket hact
  | @readDone eof => exact h.readDone hs eof
  | receive => exact h.receive
  | received => exact h.received
  | sendPass hact => exact h.sendPass hs hact
  | send hact => exact h.send hact
  | sent hact => exact h.sent hact

end Diligent

end Side

theorem diligent_of_reachableBy {k : KernelBase} {arithmetic : Arithmetic} {ok : PairState → PairAct → Prop} {s : PairState}
    (h : (remotePair k arithmetic).ReachableBy ok s) (m : Mode) : (s.side m).Diligent :=
  side_invariant (fun _ _ _ => ⟨⟨nofun, nofun⟩, nofun, nofun, nofun⟩) (fun _ _ _ _ _ hs hd hn => hd.next hs hn) h m

end ProcessNetwork
