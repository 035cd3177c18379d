import ProcessNetwork.RemoteAccounting

/-!
# Flow control

The writer never sends more than the ring of the reader can take, as long as the writer knows the ring.  What the ring
will be when a packet arrives follows from the grow packets before it (`Room.after`), so `Room.Fits` says of all packets
on the way that they will fit.  The reader only has to keep what it has promised, and the writer to stay below it
(`Link.Flows`).

The writer breaks this when it goes on sending after its own node has grown the queue and before the grow packet is sent,
and the reader when the parts into which the writer splits the new length are not the parts of the reader (`Paced`).
-/

namespace ProcessNetwork

open Framing (headers total)

/-- The length and the largest threshold of a ring. -/
structure Room where
  length : Nat
  maxThreshold : Nat

namespace Room

variable {alpha : Alpha} {r r' : Room} {b b' : Nat} {p : Packet} {ps ps' : List Packet}

/-- The ring of the reader after a packet that fits. -/
def hear (alpha : Alpha) (r : Room) (p : Packet) : Room :=
  if p.type = .grow then
    let maxthresh := max r.maxThreshold p.maxThreshold
    ⟨max r.length (RemoteQueue.queueLength p.queueSize maxthresh alpha .read), maxthresh⟩
  else r

def after (alpha : Alpha) (r : Room) (ps : List Packet) : Room := ps.foldl (hear alpha) r

/-- Every enqueue packet fits when it arrives, with `b` bytes already there. -/
def Fits (alpha : Alpha) (r : Room) (b : Nat) : List Packet → Prop
  | [] => True
  | p :: ps => (p.type = .enqueue → b + p.count ≤ r.length ∧ p.count ≤ r.maxThreshold) ∧
      (r.hear alpha p).Fits alpha (b + p.enqueued) ps

/-- The ring `r'` is at least as large as `r`. -/
def Le (r r' : Room) : Prop := r.length ≤ r'.length ∧ r.maxThreshold ≤ r'.maxThreshold

private theorem Le.hear (h : r.Le r') (p : Packet) : (r.hear alpha p).Le (r'.hear alpha p) := by
  unfold Room.hear
  split
  · have hmt : max r.maxThreshold p.maxThreshold ≤ max r'.maxThreshold p.maxThreshold := max_le_max h.2 (Nat.le_refl _)
    exact ⟨max_le_max h.1 (RemoteQueue.queueLength_mono (.refl alpha _) hmt .read), hmt⟩
  · exact h

private theorem Le.after (h : r.Le r') (ps : List Packet) : (r.after alpha ps).Le (r'.after alpha ps) := by
  induction ps generalizing r r' with
  | nil => exact h
  | cons p ps ih => exact ih (h.hear p)

private theorem Fits.mono (hr : r.Le r') (hb : b' ≤ b) (h : r.Fits alpha b ps) : r'.Fits alpha b' ps := by
  induction ps generalizing r r' b b' with
  | nil => trivial
  | cons p ps ih =>
    refine ⟨fun ht => ?_, ih (hr.hear p) (Nat.add_le_add_right hb _) h.2⟩
    obtain ⟨h1, h2⟩ := h.1 ht
    exact ⟨by have := hr.1; omega, h2.trans hr.2⟩

private theorem fits_append : r.Fits alpha b (ps ++ ps') ↔
    r.Fits alpha b ps ∧ (r.after alpha ps).Fits alpha (b + (ps.map Packet.enqueued).sum) ps' := by
  induction ps generalizing r b with
  | nil => simp [Fits, after]
  | cons p ps ih =>
    rw [List.cons_append, Fits, Fits, ih, List.map_cons, List.sum_cons, Nat.add_assoc, and_assoc]
    rfl

private theorem after_append : r.after alpha (ps ++ ps') = (r.after alpha ps).after alpha ps' := List.foldl_append

/-- The ring grows only. -/
theorem le_after (alpha : Alpha) (r : Room) (ps : List Packet) : r.Le (r.after alpha ps) := by
  induction ps generalizing r with
  | nil => exact ⟨Nat.le_refl _, Nat.le_refl _⟩
  | cons p ps ih =>
    have h1 : r.Le (r.hear alpha p) := by
      unfold hear
      split
      · exact ⟨Nat.le_max_left _ _, Nat.le_max_left _ _⟩
      · exact ⟨Nat.le_refl _, Nat.le_refl _⟩
    have h2 := ih (r.hear alpha p)
    exact ⟨h1.1.trans h2.1, h1.2.trans h2.2⟩

/-- Packets that are not enqueue packets fit. -/
theorem fits_of_forall (h : ∀ p ∈ ps, p.type ≠ .enqueue) : r.Fits alpha b ps := by
  induction ps generalizing r b with
  | nil => trivial
  | cons p ps ih =>
    exact ⟨fun ht => absurd ht (h p List.mem_cons_self), ih fun p hp => h p (List.mem_cons_of_mem _ hp)⟩

private theorem hear_of_ne (h : p.type ≠ .grow) : r.hear alpha p = r := if_neg h

private theorem hear_of_grow (alpha : Alpha) (r : Room) (h : p.type = .grow) : r.hear alpha p =
    ⟨max r.length (RemoteQueue.queueLength p.queueSize (max r.maxThreshold p.maxThreshold) alpha .read),
      max r.maxThreshold p.maxThreshold⟩ := if_pos h

/-- A grow packet makes the ring as large as it says. -/
theorem le_after_grow (alpha : Alpha) (r : Room) (ps : List Packet) (h : p.type = .grow) :
    RemoteQueue.queueLength p.queueSize p.maxThreshold alpha .read ≤ (r.after alpha (p :: ps)).length ∧
      p.maxThreshold ≤ (r.after alpha (p :: ps)).maxThreshold := by
  obtain ⟨h1, h2⟩ := le_after alpha (r.hear alpha p) ps
  change _ ≤ (r.after alpha (p :: ps)).length at h1
  change _ ≤ (r.after alpha (p :: ps)).maxThreshold at h2
  have hlen := RemoteQueue.queueLength_mono (.refl alpha p.queueSize) (Nat.le_max_right r.maxThreshold p.maxThreshold) .read
  rw [hear_of_grow alpha r h] at h1 h2
  exact ⟨(hlen.trans (Nat.le_max_right _ _)).trans h1, (Nat.le_max_right _ _).trans h2⟩

end Room

/-! ### The invariant -/

/-- The ring of an end. -/
def Endpoint.room (v : Endpoint) : Room := ⟨v.length, v.maxThreshold⟩

variable {k : KernelBase} {v v' : Endpoint} {l l' : Link} {act : SideAct} {inbox wire rest sent : Wire} {p : Packet}
  {peerEnded abandons : Bool} {growth : Option (Nat × Nat)} {r : Endpoint.Report} {mode : Mode}

/-- The packets on the way to the reader fit; the writer stays below what the ring of the reader will be; and what the
reader has promised fits its ring. -/
structure Link.Flows (l : Link) : Prop where
  fraction : l.reader.alpha.arithmetic = .exact
  overrun : l.reader.overrun = false
  fits : l.reader.room.Fits l.reader.alpha (l.reader.bytecount + l.reader.inPacket) (headers l.toReader)
  ahead : l.writer.pendingGrow = false →
    max l.writer.readerlength l.writer.maxThreshold ≤ (l.reader.room.after l.reader.alpha (headers l.toReader)).length ∧
      l.writer.maxThreshold ≤ (l.reader.room.after l.reader.alpha (headers l.toReader)).maxThreshold
  parts : l.writer.readerlength ≤
    RemoteQueue.queueLength (l.writer.readerlength + l.writer.writerlength) l.writer.maxThreshold l.reader.alpha .read
  promised : ∀ p ∈ headers l.toWriter, p.type = .grow → p.maxThreshold ≤ l.reader.maxThreshold ∧
    RemoteQueue.queueLength p.queueSize p.maxThreshold l.reader.alpha .read ≤ l.reader.length

/-- The end of `Read`, after which the pending grow packet is sent. -/
def SideAct.announces : SideAct → Bool
  | .readDone _ => true
  | _ => false

namespace Endpoint

/-- The parts that the writer announces do not overflow; the part that the reader's announcement gives the reader fits
its ring. -/
def Announceable (v : Endpoint) : Mode → Prop
  | .write => v.readerlength + v.writerlength < 2 ^ 32
  | .read => RemoteQueue.queueLength (u32 (v.readerlength + v.writerlength)) v.maxThreshold v.alpha .read ≤ v.length

/-- The condition on what an end sends.  The writer begins no enqueue packet while its own grow packet is pending. -/
structure Paced (v : Endpoint) (mode : Mode) (act : SideAct) : Prop where
  enqueue : mode = .write → act = .sendPass → v.count ≠ 0 → v.bytecount < v.readerlength → v.dead = false →
    v.pendingGrow = false
  announce : act.announces = true → v.pendingGrow = true → v.sentEnd = false → v.Announceable mode

instance (v : Endpoint) (mode : Mode) : Decidable (v.Announceable mode) :=
  match mode with
  | .write => inferInstanceAs (Decidable (_ < _))
  | .read => inferInstanceAs (Decidable (_ ≤ _))

instance (v : Endpoint) (mode : Mode) (act : SideAct) : Decidable (v.Paced mode act) :=
  decidable_of_iff (_ ∧ _) ⟨fun h => ⟨h.1, h.2⟩, fun h => ⟨h.1, h.2⟩⟩

end Endpoint

namespace Endpoint.Report

/-- The packets after the grow packet. -/
def others (r : Report) : List Packet := r.dequeue.toList ++ r.informs ++ r.ends.toList

theorem packets_eq (r : Report) : r.packets = r.grow.toList ++ r.others := by
  simp only [packets, others, List.append_assoc]

theorem Fits.ne_grow (hr : r.Fits v.toBooks v.count v.maxThreshold mode) (hp : p ∈ r.others) : p.type ≠ .grow := by
  simp only [others, List.mem_append, Option.mem_toList] at hp
  rcases hp with (hp | hp) | hp
  · rw [(hr.dequeue p hp).2.2.2.1]
    decide
  · obtain ⟨-, -, h | h⟩ := hr.informs p hp
    · rw [h]
      decide
    · cases mode <;> rw [h] <;> decide
  · have h := (hr.ends p hp).2.2
    cases mode <;> rw [h] <;> decide

theorem Fits.mem_grow (hr : r.Fits v.toBooks v.count v.maxThreshold mode) (hp : p ∈ r.packets) (ht : p.type = .grow) :
    r.grow = some p := by
  rw [packets_eq] at hp
  rcases List.mem_append.1 hp with hp | hp
  · exact Option.mem_toList.1 hp
  · exact absurd ht (hr.ne_grow hp)

end Endpoint.Report

private theorem announces_of (hact : r.grow.isSome = true → ∃ b, act = .readDone b) (hgrow : r.grow = some p) :
    act.announces = true := by
  obtain ⟨b, rfl⟩ := hact (by rw [hgrow]; rfl)
  rfl

namespace Link.Flows

/-- A step of the writer. -/
theorem write (h : l.Flows) (hf : l.Framed) (ha : l.Accounted)
    (hpaced : l.writer.Paced .write act)
    (hs : EndpointStep l.writer l.toWriter peerEnded growth abandons .write act v rest sent) :
    Link.Flows { l with writer := v, toReader := l.toReader ++ sent, toWriter := rest } := by
  obtain ⟨h0, h1, h2, h3, h4, h5⟩ := h
  have hrest : ∀ p ∈ headers rest, p.type = .grow → p.maxThreshold ≤ l.reader.maxThreshold ∧
      RemoteQueue.queueLength p.queueSize p.maxThreshold l.reader.alpha .read ≤ l.reader.length := fun p hp =>
    h5 p (Framing.mem_headers.2 (hs.mem_inbox (Framing.mem_headers.1 hp)))
  have halpha : l.writer.alpha = l.reader.alpha := hf.alpha.symm
  -- what is sent, and what the writer knows then
  suffices hnew : (l.reader.room.after l.reader.alpha (headers l.toReader)).Fits l.reader.alpha
      (l.reader.bytecount + l.reader.inPacket + total Packet.enqueued l.toReader) (headers sent) ∧
      (v.pendingGrow = false →
        max v.readerlength v.maxThreshold ≤
            ((l.reader.room.after l.reader.alpha (headers l.toReader)).after l.reader.alpha (headers sent)).length ∧
          v.maxThreshold ≤
            ((l.reader.room.after l.reader.alpha (headers l.toReader)).after l.reader.alpha (headers sent)).maxThreshold) ∧
      v.readerlength ≤ RemoteQueue.queueLength (v.readerlength + v.writerlength) v.maxThreshold l.reader.alpha .read by
    obtain ⟨g1, g2, g3⟩ := hnew
    refine ⟨h0, h1, ?_, ?_, g3, hrest⟩
    · rw [Framing.headers_append, Room.fits_append, ← Framing.total_eq_sum_headers]
      exact ⟨h2, g1⟩
    · rw [Framing.headers_append, Room.after_append]
      exact g2
  have hparts : ∀ len mt : Nat, (l.writer.grow .write len mt true).readerlength ≤
      RemoteQueue.queueLength ((l.writer.grow .write len mt true).readerlength +
        (l.writer.grow .write len mt true).writerlength) (l.writer.grow .write len mt true).maxThreshold l.reader.alpha
        .read := by
    intro len mt
    rw [← halpha]
    exact RemoteQueue.queueLength_mono
      (Alpha.widens_of_exact (halpha ▸ h0) (RemoteQueue.le_parts len (max l.writer.maxThreshold mt) l.writer.alpha))
      (Nat.le_refl _) .read
  cases hs with
  | @grows _ _ len mt => exact ⟨trivial, fun hp => (by cases hp), hparts len mt⟩
  | @hearsGrow _ p _ hin ht =>
    refine ⟨trivial, fun hpend => ?_, hparts p.queueSize p.maxThreshold⟩
    obtain ⟨g1, g2⟩ := h3 hpend
    obtain ⟨g3, g4⟩ := h5 p (by rw [hin]; exact List.mem_cons_self) ht
    obtain ⟨g5, g6⟩ := Room.le_after l.reader.alpha l.reader.room (headers l.toReader)
    change l.reader.length ≤ _ at g5
    change l.reader.maxThreshold ≤ _ at g6
    have hread : (l.writer.grow .write p.queueSize p.maxThreshold l.writer.pendingGrow).readerlength =
        max l.writer.maxThreshold (RemoteQueue.queueLength p.queueSize p.maxThreshold l.reader.alpha .read) := by
      rw [← halpha]
      exact RemoteQueue.queueLength_max p.queueSize l.writer.maxThreshold p.maxThreshold l.writer.alpha .read
    have hmt := RemoteQueue.maxThreshold_le_queueLength p.queueSize p.maxThreshold l.reader.alpha .read
    rw [hread]
    show max (max _ _) (max l.writer.maxThreshold p.maxThreshold) ≤ (l.reader.room.after _ _).length ∧
      max l.writer.maxThreshold p.maxThreshold ≤ (l.reader.room.after _ _).maxThreshold
    constructor <;> omega
  | @reports _ _ r _ _ _ _ hact hfits =>
    rw [Framing.headers_map]
    refine ⟨Room.fits_of_forall fun p hp => (hfits.sentBy hf.writer hp).2, fun hpend => ?_, h4⟩
    change (l.writer.pendingGrow && r.grow.isNone) = false at hpend
    show max l.writer.readerlength l.writer.maxThreshold ≤ _ ∧ l.writer.maxThreshold ≤ _
    cases hgrow : r.grow with
    | none =>
      rw [hgrow, Option.isNone_none, Bool.and_true] at hpend
      obtain ⟨g1, g2⟩ := h3 hpend
      obtain ⟨g3, g4⟩ := Room.le_after l.reader.alpha (l.reader.room.after l.reader.alpha (headers l.toReader))
        r.packets
      exact ⟨g1.trans g3, g2.trans g4⟩
    | some p =>
      obtain ⟨g1, g2, ht, -, hq, hm⟩ := hfits.grow p hgrow
      have hsum : p.queueSize = l.writer.readerlength + l.writer.writerlength :=
        hq.trans (u32_of_lt (hpaced.announce (announces_of hact hgrow) g1 g2))
      have hpackets : r.packets = p :: r.others := by
        rw [Endpoint.Report.packets_eq, hgrow]
        rfl
      obtain ⟨g3, g4⟩ := Room.le_after_grow l.reader.alpha (l.reader.room.after l.reader.alpha (headers l.toReader))
        r.others ht
      rw [hpackets]
      rw [hm] at g3 g4
      rw [← hsum] at h4
      have hlen := h4
      have hmt := RemoteQueue.maxThreshold_le_queueLength p.queueSize l.writer.maxThreshold l.reader.alpha .read
      exact ⟨(Nat.max_le.2 ⟨hlen, hmt⟩).trans g3, g4⟩
  | @begins p hp hsent hdead hlt ht hpos hcount hmt hcredit =>
    have hpend := hpaced.enqueue rfl rfl (by omega) hlt hdead
    obtain ⟨g1, g2⟩ := h3 hpend
    have hbytes := ha.bytes
    have hpacket : l.writer.inPacket = 0 := by rw [Endpoint.inPacket, hp]
    refine ⟨⟨fun _ => ⟨?_, hmt.trans g2⟩, trivial⟩, fun _ => ?_, h4⟩
    · omega
    · show max l.writer.readerlength l.writer.maxThreshold ≤ ((l.reader.room.after _ _).hear _ p).length ∧
        l.writer.maxThreshold ≤ ((l.reader.room.after _ _).hear _ p).maxThreshold
      rw [Room.hear_of_ne (by rw [ht]; decide)]
      exact ⟨g1, g2⟩
  | _ => exact ⟨trivial, h3, h4⟩

/-- A step of the reader. -/
theorem read (h : l.Flows) (ha : l.Accounted) (hpaced : l.reader.Paced .read act)
    (hs : EndpointStep l.reader l.toReader peerEnded growth abandons .read act v rest sent) :
    Link.Flows { l with reader := v, toReader := rest, toWriter := l.toWriter ++ sent } := by
  obtain ⟨h0, h1, h2, h3, h4, h5⟩ := h
  have halpha : v.alpha = l.reader.alpha := hs.alpha_eq
  -- the ring of the reader and what is on the way to it, and what the reader has promised
  suffices hnew : v.overrun = false ∧
      v.room.Fits l.reader.alpha (v.bytecount + v.inPacket) (headers rest) ∧
      (l.reader.room.after l.reader.alpha (headers l.toReader)).Le (v.room.after l.reader.alpha (headers rest)) ∧
      l.reader.room.Le v.room ∧
      ∀ p ∈ headers sent, p.type = .grow → p.maxThreshold ≤ v.maxThreshold ∧
        RemoteQueue.queueLength p.queueSize p.maxThreshold l.reader.alpha .read ≤ v.length by
    obtain ⟨g1, g2, ⟨g3, g4⟩, ⟨g5, g6⟩, g7⟩ := hnew
    change l.reader.length ≤ v.length at g5
    change l.reader.maxThreshold ≤ v.maxThreshold at g6
    refine ⟨halpha.symm ▸ h0, g1, halpha.symm ▸ g2, fun hpend => ?_, halpha.symm ▸ h4, fun p hp ht => ?_⟩
    · obtain ⟨g8, g9⟩ := h3 hpend
      show _ ≤ (v.room.after v.alpha (headers rest)).length ∧ _ ≤ (v.room.after v.alpha (headers rest)).maxThreshold
      rw [halpha]
      exact ⟨g8.trans g3, g9.trans g4⟩
    · show p.maxThreshold ≤ v.maxThreshold ∧ RemoteQueue.queueLength p.queueSize p.maxThreshold v.alpha .read ≤ v.length
      rw [halpha]
      change p ∈ headers (l.toWriter ++ sent) at hp
      rw [Framing.headers_append] at hp
      rcases List.mem_append.1 hp with hp | hp
      · obtain ⟨g8, g9⟩ := h5 p hp ht
        exact ⟨g8.trans g6, g9.trans g5⟩
      · exact g7 p hp ht
  have hrefl : ∀ r : Room, r.Le r := fun r => ⟨Nat.le_refl _, Nat.le_refl _⟩
  have hskips : ∀ {p : Packet} {rest : Wire}, p.type ≠ .grow → p.type ≠ .enqueue →
      l.reader.room.Fits l.reader.alpha (l.reader.bytecount + l.reader.inPacket) (headers (.header p :: rest)) →
      l.reader.room.Fits l.reader.alpha (l.reader.bytecount + l.reader.inPacket) (headers rest) ∧
        (l.reader.room.after l.reader.alpha (headers (.header p :: rest))).Le
          (l.reader.room.after l.reader.alpha (headers rest)) := by
    intro p rest hgrow henqueue hfits
    have hroom : l.reader.room.hear l.reader.alpha p = l.reader.room := Room.hear_of_ne hgrow
    have hrest := hfits.2
    rw [hroom, Packet.enqueued, if_neg henqueue] at hrest
    refine ⟨hrest, ?_⟩
    have hafter : l.reader.room.after l.reader.alpha (headers (.header p :: rest)) =
        l.reader.room.after l.reader.alpha (headers rest) := congrArg (Room.after l.reader.alpha · (headers rest)) hroom
    rw [hafter]
    exact hrefl _
  cases hs with
  | @grows _ _ len mt =>
    have hroom : l.reader.room.Le (l.reader.grow .read len mt true).room := ⟨Nat.le_max_left _ _, Nat.le_max_left _ _⟩
    exact ⟨h1, h2.mono hroom (Nat.le_refl _), hroom.after _, hroom, fun p hp => absurd hp List.not_mem_nil⟩
  | @hearsGrow _ p rest hin ht =>
    have hroom : (l.reader.grow .read p.queueSize p.maxThreshold l.reader.pendingGrow).room =
        l.reader.room.hear l.reader.alpha p := (Room.hear_of_grow l.reader.alpha l.reader.room ht).symm
    rw [hin] at h2 ⊢
    refine ⟨h1, ?_, ?_, ⟨Nat.le_max_left _ _, Nat.le_max_left _ _⟩, fun p hp => absurd hp List.not_mem_nil⟩
    · rw [hroom]
      refine h2.2.mono (hrefl _) (Nat.le_of_eq ?_)
      rw [Packet.enqueued, if_neg (by rw [ht]; decide)]
      rfl
    · rw [hroom]
      exact hrefl _
  | hears hin ht =>
    rw [hin] at h2 ⊢
    have hskip := hskips (by rcases ht with ht | ht | ht <;> rw [ht] <;> decide) (by
      rcases ht with ht | ht | ht <;> rw [ht] <;> decide) h2
    exact ⟨h1, hskip.1, hskip.2, hrefl _, fun p hp => absurd hp List.not_mem_nil⟩
  | hearsEnd hin _ ht =>
    rw [hin] at h2 ⊢
    have hskip := hskips (by rw [ht]; decide) (by rw [ht]; decide) h2
    exact ⟨h1, hskip.1, hskip.2, hrefl _, fun p hp => absurd hp List.not_mem_nil⟩
  | @reports _ _ r _ _ _ _ hact hfits =>
    have hbytes : (if r.dequeue.isSome then l.reader.count else l.reader.bytecount) ≤ l.reader.bytecount := by
      split_ifs
      · exact ha.count_le
      · exact Nat.le_refl _
    refine ⟨h1, h2.mono (hrefl _) (Nat.add_le_add_right hbytes _), hrefl _, hrefl _, fun p hp ht => ?_⟩
    rw [Framing.headers_map] at hp
    have hgrow := hfits.mem_grow hp ht
    obtain ⟨g1, g2, -, -, hq, hm⟩ := hfits.grow p hgrow
    show p.maxThreshold ≤ l.reader.maxThreshold ∧
      RemoteQueue.queueLength p.queueSize p.maxThreshold l.reader.alpha .read ≤ l.reader.length
    rw [hq, hm]
    exact ⟨Nat.le_refl _, hpaced.announce (announces_of hact hgrow) g1 g2⟩
  | dequeues => exact ⟨h1, h2, hrefl _, hrefl _, fun p hp => absurd hp List.not_mem_nil⟩
  | @accepts p rest length maxThreshold overrun hin ht hp _ hover hcases =>
    have hpacket : l.reader.inPacket = 0 := by rw [Endpoint.inPacket, hp]
    rw [hin] at h2 ⊢
    obtain ⟨g1, g2⟩ := h2.1 ht
    change l.reader.bytecount + l.reader.inPacket + p.count ≤ l.reader.length at g1
    change p.count ≤ l.reader.maxThreshold at g2
    have hcount := ha.count_le
    have hfalse : overrun = false := by
      rw [hover, decide_eq_false (by omega), decide_eq_false (by omega)]
      rfl
    obtain ⟨-, rfl, rfl⟩ | ⟨htrue, -⟩ := hcases
    · have hroom : l.reader.room.hear l.reader.alpha p = l.reader.room := Room.hear_of_ne (by rw [ht]; decide)
      refine ⟨by rw [hfalse, Bool.or_false]; exact h1, ?_, ?_, hrefl _, fun p hp => absurd hp List.not_mem_nil⟩
      · have hrest := h2.2
        rw [hroom, Packet.enqueued, if_pos ht, hpacket] at hrest
        exact hrest
      · have hafter : l.reader.room.after l.reader.alpha (headers (.header p :: rest)) =
            l.reader.room.after l.reader.alpha (headers rest) :=
          congrArg (Room.after l.reader.alpha · (headers rest)) hroom
        rw [hafter]
        exact hrefl _
    · exact absurd (htrue.symm.trans hfalse) (by decide)
  | @receives p n _ _ hin hp =>
    have hpacket : l.reader.inPacket = p.count := by rw [Endpoint.inPacket, hp]
    rw [hin] at h2 ⊢
    rw [hpacket] at h2
    exact ⟨h1, h2, hrefl _, hrefl _, fun p hp => absurd hp List.not_mem_nil⟩
  | @received p bytecount _ hp hbytes =>
    have hpacket : l.reader.inPacket = p.count := by rw [Endpoint.inPacket, hp]
    have hlt := ha.bytes_lt
    have hsum := ha.bytes
    rw [hpacket] at h2 hsum
    have hbytes : bytecount = l.reader.bytecount + p.count := hbytes.trans (u32_of_lt (by omega))
    refine ⟨h1, h2.mono (hrefl _) ?_, hrefl _, hrefl _, fun p hp => absurd hp List.not_mem_nil⟩
    show bytecount + 0 ≤ _
    omega
  | _ => exact ⟨h1, h2, hrefl _, hrefl _, fun p hp => absurd hp List.not_mem_nil⟩

/-- At the start the writer knows the ring of the reader. -/
theorem start (k : KernelBase) {attr : SimpleQueueAttr} (ha : attr.alpha.arithmetic = .exact) :
    (pairStart k attr).link.Flows := by
  have hlength : (sideStart k attr .read).endpoint.length =
      max (RemoteQueue.queueLength attr.length attr.maxThreshold attr.alpha .read) (max attr.maxThreshold 1) := rfl
  have hparts := RemoteQueue.queueLength_mono
    (Alpha.widens_of_exact ha (RemoteQueue.le_parts attr.length attr.maxThreshold attr.alpha))
    (Nat.le_max_left attr.maxThreshold 1) .read
  exact ⟨ha, rfl, trivial, fun _ => ⟨Nat.le_of_eq hlength.symm, Nat.le_refl _⟩, hparts, fun p hp =>
    absurd hp List.not_mem_nil⟩

end Link.Flows

/-- Along a run in which both ends keep the condition, the reader never has to grow its ring for a packet: every enqueue
packet that comes next fits. -/
theorem flow_control {s : PairState}
    (h : (remotePair k).ReachableBy (fun s a => (s.side a.mode).endpoint.Paced a.mode a.act) s) :
    (s.side .read).q.overrun = false ∧ ∀ p rest, s.wire .write = .header p :: rest → p.type = .enqueue →
      p.count ≤ (s.side .read).q.queue.freespace ∧ p.count ≤ (s.side .read).q.queue.maxThreshold := by
  have hflows : s.link.Flows ∧ s.link.Accounted := by
    refine link_invariant (I := fun l => l.Flows ∧ l.Accounted) ?_ ?_ h
    · intro attr hattr ha
      have hinit : (remotePair k).ReachableBy (fun _ _ => True) (pairStart k attr) := .init ⟨attr, hattr, ha, rfl⟩
      exact ⟨.start k ha, accounted_of_reachableBy hinit⟩
    · rintro s ⟨m, act⟩ l' hp ⟨hflows, hacc⟩ hok hs
      refine ⟨?_, hacc.step hp.framed.writer hs⟩
      cases hs with
      | writer hs => exact hflows.write hp.framed hacc hok hs
      | reader hs => exact hflows.read hacc hok hs
  obtain ⟨hflows, hacc⟩ := hflows
  refine ⟨hflows.overrun, fun p rest hwire ht => ?_⟩
  have hfits := hflows.fits
  rw [show s.link.toReader = .header p :: rest from hwire] at hfits
  obtain ⟨h1, h2⟩ := hfits.1 ht
  have hcount : (s.side .read).q.queue.count ≤ s.link.reader.bytecount := hacc.count_le
  change s.link.reader.bytecount + s.link.reader.inPacket + p.count ≤ (s.side .read).q.queue.queueLength at h1
  exact ⟨Nat.le_sub_of_add_le (by omega), h2⟩

/-- The writer sends two bytes, and the reader has not read them yet. -/
theorem flow_control_sent : ∃ s p rest, (remotePair (.standard false)).Reachable s ∧
    s.wire .write = .header p :: rest ∧ p.type = .enqueue ∧ p.count = 2 ∧ p.count ≤ (s.side .read).q.queue.freespace := by
  have hrun : (((remotePair (.standard false)).runBy (fun s a => (s.side a.mode).endpoint.Paced a.mode a.act)
      (pairStart (.standard false) (.halved 4 2))
      [atWriter (.getRawPtr 2 0), atWriter .pass, atWriter (.commit 2), atWriter .check, atWriter (.readDone false),
        atWriter .sendPass]).any fun s => s.wire .write = [.header ⟨.enqueue, 2, 2, 0, 0, 1⟩]) = true := by
    decide +kernel
  obtain ⟨s, hs, hp⟩ := Machine.exists_reachableBy (M := remotePair (.standard false)) ⟨_, by decide, rfl, rfl⟩ hrun
  have hwire := of_decide_eq_true hp
  exact ⟨s, _, _, hs.mono fun _ _ _ => trivial, hwire, rfl, rfl, ((flow_control hs).2 _ _ hwire rfl).1⟩

/-- While a packet is being sent, the node of the writer grows the queue and enqueues more; that is sent before the grow
packet. -/
theorem grow_while_sending_overruns : ∃ s p rest, (remotePair (.standard false)).Reachable s ∧
    s.wire .write = .header p :: rest ∧ p.type = .enqueue ∧ (s.side .read).q.queue.freespace < p.count := by
  have hrun : (((remotePair (.standard false)).runBy (fun _ _ => True) (pairStart (.standard false) (.halved 4 2))
      [atWriter (.getRawPtr 2 0), atWriter .pass, atWriter (.commit 2), atWriter .check, atWriter (.readDone false),
        atWriter .sendPass, atWriter (.grow 8 4), atWriter (.getRawPtr 2 0), atWriter .pass, atWriter (.commit 2),
        atWriter .send, atWriter .send, atWriter .sent, atWriter .sendPass, atReader .check, atReader .readPacket,
        atReader .receive, atReader .receive, atReader .received]).any fun s =>
          s.wire .write = [.header ⟨.enqueue, 2, 2, 0, 0, 2⟩] ∧ (s.side .read).q.queue.freespace < 2) = true := by
    decide +kernel
  obtain ⟨s, hs, hp⟩ := Machine.exists_reachableBy (M := remotePair (.standard false)) ⟨_, by decide, rfl, rfl⟩ hrun
  obtain ⟨hwire, hfree⟩ := of_decide_eq_true hp
  exact ⟨s, _, _, hs, hwire, rfl, hfree⟩

end ProcessNetwork
