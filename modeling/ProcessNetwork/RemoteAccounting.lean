import ProcessNetwork.RemoteShutdown

/-!
# The byte counters

The writer counts in `bytecount` what it has sent and the reader has not yet reported as dequeued; the reader counts what
it has received and not yet reported.  Between the two are the enqueue packets on the way to the reader and the dequeue
packets on the way back (`Link.Accounted`).  So none of the subtractions wraps.

With the handshake it follows that the packet handlers get only packets that they accept, so that an assertion can fail
only over a ring that an operation that threw has left behind.
-/

namespace ProcessNetwork

open Framing (total)

namespace Packet

/-- The bytes per channel of an enqueue packet. -/
def enqueued (p : Packet) : Nat := if p.type = .enqueue then p.count else 0

/-- The bytes per channel that a dequeue packet reports. -/
def dequeued (p : Packet) : Nat := if p.type = .dequeue then p.count else 0

end Packet

variable {k : KernelBase} {arithmetic : Arithmetic} {v v' : Endpoint} {mode : Mode} {act : SideAct} {l l' : Link}
  {inbox wire rest sent : Wire}
  {peerEnded abandons : Bool} {growth : Option (Nat × Nat)} {p : Packet}

/-- What one end has sent, or received, for itself and for the other end. -/
structure Link.Accounted (l : Link) : Prop where
  bytes : l.writer.bytecount + l.writer.inPacket = total Packet.enqueued l.toReader + l.reader.inPacket +
    l.reader.bytecount + total Packet.dequeued l.toWriter
  bytes_lt : l.writer.bytecount + l.writer.inPacket < 2 ^ 32
  count_le : l.reader.count ≤ l.reader.bytecount
  wrappedWriter : l.writer.wrapped = false
  wrappedReader : l.reader.wrapped = false

private theorem total_headers {w : Packet → Nat} {ps : List Packet} : total w (ps.map .header : Wire) = (ps.map w).sum := by
  induction ps with
  | nil => rfl
  | cons p ps ih => rw [List.map_cons, total, ih, List.map_cons, List.sum_cons]

namespace Endpoint.Report.Fits

variable {r : Report}

private theorem total_enqueued (hr : r.Fits v.toBooks v.count v.maxThreshold mode) (hb : v.Bounded) :
    total Packet.enqueued (r.packets.map .header : Wire) = 0 := by
  rw [total_headers, List.sum_eq_zero]
  intro n hn
  obtain ⟨p, hp, rfl⟩ := List.mem_map.1 hn
  exact if_neg (hr.sentBy hb hp).2

private theorem total_dequeued (hr : r.Fits v.toBooks v.count v.maxThreshold mode) :
    total Packet.dequeued (r.packets.map .header : Wire) = if r.dequeue.isSome then v.bytecount - v.count else 0 := by
  have hzero : ∀ ps : List Packet, (∀ p ∈ ps, p.type ≠ .dequeue) → (ps.map Packet.dequeued).sum = 0 := by
    intro ps hps
    refine List.sum_eq_zero fun n hn => ?_
    obtain ⟨p, hp, rfl⟩ := List.mem_map.1 hn
    exact if_neg (hps p hp)
  have h1 := hzero r.grow.toList fun p hp => by
    rw [(hr.grow p (Option.mem_toList.1 hp)).2.2.1]
    decide
  have h2 := hzero r.informs fun p hp => by
    obtain ⟨-, -, ht | ht⟩ := hr.informs p hp
    · rw [ht]
      decide
    · cases mode <;> rw [ht] <;> decide
  have h3 := hzero r.ends.toList fun p hp => by
    obtain ⟨-, -, ht⟩ := hr.ends p (Option.mem_toList.1 hp)
    cases mode <;> rw [ht] <;> decide
  rw [total_headers, packets]
  simp only [List.map_append, List.sum_append, h1, h2, h3]
  cases hd : r.dequeue with
  | none => rfl
  | some p =>
    obtain ⟨-, -, -, ht, -, hc⟩ := hr.dequeue p hd
    simp [Packet.dequeued, ht, hc]

end Endpoint.Report.Fits

namespace EndpointStep

/-- A step moves bytes between the counter of the writer and the two channels. -/
theorem bytes_write (h : EndpointStep v inbox peerEnded growth abandons .write act v' rest sent) (hb : v.Bounded)
    (hs : v.bytecount + v.inPacket < 2 ^ 32) (hle : total Packet.dequeued inbox ≤ v.bytecount + v.inPacket) :
    v'.bytecount + v'.inPacket + total Packet.dequeued inbox =
        v.bytecount + v.inPacket + total Packet.enqueued sent + total Packet.dequeued rest ∧
      v'.bytecount + v'.inPacket < 2 ^ 32 ∧ v'.wrapped = v.wrapped := by
  have hskip : ∀ {p : Packet} {rest : Wire}, inbox = .header p :: rest → p.type ≠ .dequeue →
      total Packet.dequeued inbox = total Packet.dequeued rest := by
    intro p rest hin ht
    rw [hin, total, Packet.dequeued, if_neg ht, Nat.zero_add]
  cases h with
  | hearsGrow hin ht => exact ⟨by rw [hskip hin (by rw [ht]; decide)]; rfl, hs, rfl⟩
  | hears hin ht => exact ⟨by rw [hskip hin (by rcases ht with ht | ht | ht <;> rw [ht] <;> decide)]; rfl, hs, rfl⟩
  | hearsEnd hin _ ht => exact ⟨by rw [hskip hin (by rw [ht]; decide)]; rfl, hs, rfl⟩
  | @reports _ _ r _ _ _ _ _ hfits =>
    have hd : r.dequeue = none := Option.eq_none_iff_forall_not_mem.2 fun p hp =>
      absurd (hfits.dequeue p hp).1 (by decide)
    have hbytes : (if r.dequeue.isSome then v.count else v.bytecount) = v.bytecount := by rw [hd]; rfl
    rw [hfits.total_enqueued hb]
    show (if r.dequeue.isSome then v.count else v.bytecount) + v.inPacket + _ = _ ∧
      (if r.dequeue.isSome then v.count else v.bytecount) + v.inPacket < 2 ^ 32 ∧ _
    rw [hbytes]
    exact ⟨rfl, hs, rfl⟩
  | @hearsDequeue p rest bytecount hin ht hp hbytes =>
    have hpacket : v.inPacket = 0 := by rw [Endpoint.inPacket, hp]
    have htotal : total Packet.dequeued inbox = p.count + total Packet.dequeued rest := by
      rw [hin, total, Packet.dequeued, if_pos ht]
    rw [hpacket] at hs hle
    -- the reader has taken no more than was sent, so that the counter does not wrap
    have hsub : bytecount = v.bytecount - p.count := by rw [hbytes, sub32_of_le (by omega) (by omega)]
    have hwrap : (v.wrapped || decide (v.bytecount < p.count)) = v.wrapped := by
      rw [decide_eq_false (by omega), Bool.or_false]
    show bytecount + v.inPacket + _ = v.bytecount + v.inPacket + 0 + _ ∧ bytecount + v.inPacket < 2 ^ 32 ∧ _
    rw [hpacket]
    exact ⟨by omega, by omega, hwrap⟩
  | @begins p hp _ _ hlt ht hpos _ hmt hcredit =>
    have hpacket : v.inPacket = 0 := by rw [Endpoint.inPacket, hp]
    have htotal : total Packet.enqueued ([.header p] : Wire) = p.count := by
      rw [total, Packet.enqueued, if_pos ht]
      rfl
    -- a packet is begun below `readerlength`, and with at most `maxThreshold` bytes
    have h1 := hb.readerlength
    have h2 := hb.maxThreshold
    show v.bytecount + p.count + _ = v.bytecount + v.inPacket + _ + _ ∧ v.bytecount + p.count < 2 ^ 32 ∧ _
    rw [hpacket, htotal]
    exact ⟨by omega, by omega, rfl⟩
  | @sends p n _ hp =>
    have hpacket : v.inPacket = p.count := by rw [Endpoint.inPacket, hp]
    show v.bytecount + p.count + _ = v.bytecount + v.inPacket + 0 + _ ∧ v.bytecount + p.count < 2 ^ 32 ∧ _
    rw [hpacket] at hs ⊢
    exact ⟨rfl, hs, rfl⟩
  | @sent p bytecount hp hbytes =>
    have hpacket : v.inPacket = p.count := by rw [Endpoint.inPacket, hp]
    rw [hpacket] at hs
    have hsum : bytecount = v.bytecount + p.count := hbytes.trans (u32_of_lt hs)
    show bytecount + 0 + _ = v.bytecount + v.inPacket + 0 + _ ∧ bytecount + 0 < 2 ^ 32 ∧ _
    rw [hpacket]
    exact ⟨by omega, by omega, rfl⟩
  | _ => exact ⟨rfl, hs, rfl⟩

/-- A step moves bytes between the two channels and the counter of the reader, which is never below what the ring
holds. -/
theorem bytes_read (h : EndpointStep v inbox peerEnded growth abandons .read act v' rest sent)
    (hc : v.count ≤ v.bytecount) (hs : total Packet.enqueued inbox + v.inPacket + v.bytecount < 2 ^ 32) :
    total Packet.enqueued rest + v'.inPacket + v'.bytecount + total Packet.dequeued sent =
        total Packet.enqueued inbox + v.inPacket + v.bytecount ∧
      v'.count ≤ v'.bytecount ∧ v'.wrapped = v.wrapped := by
  have hskip : ∀ {p : Packet} {rest : Wire}, inbox = .header p :: rest → p.type ≠ .enqueue →
      total Packet.enqueued inbox = total Packet.enqueued rest := by
    intro p rest hin ht
    rw [hin, total, Packet.enqueued, if_neg ht, Nat.zero_add]
  cases h with
  | hearsGrow hin ht => exact ⟨by rw [hskip hin (by rw [ht]; decide)]; rfl, hc, rfl⟩
  | hears hin ht => exact ⟨by rw [hskip hin (by rcases ht with ht | ht | ht <;> rw [ht] <;> decide)]; rfl, hc, rfl⟩
  | hearsEnd hin _ ht => exact ⟨by rw [hskip hin (by rw [ht]; decide)]; rfl, hc, rfl⟩
  | @reports _ _ r _ _ _ _ _ hfits =>
    rw [hfits.total_dequeued]
    show total Packet.enqueued inbox + v.inPacket + (if r.dequeue.isSome then v.count else v.bytecount) + _ = _ ∧
      v.count ≤ (if r.dequeue.isSome then v.count else v.bytecount) ∧ _
    split_ifs
    · exact ⟨by omega, Nat.le_refl _, rfl⟩
    · exact ⟨rfl, hc, rfl⟩
  | dequeues => exact ⟨rfl, (Nat.sub_le _ _).trans hc, rfl⟩
  | @accepts p _ _ _ _ hin ht hp =>
    have hpacket : v.inPacket = 0 := by rw [Endpoint.inPacket, hp]
    have htotal : total Packet.enqueued inbox = p.count + total Packet.enqueued rest := by
      rw [hin, total, Packet.enqueued, if_pos ht]
    refine ⟨?_, hc, rfl⟩
    show total Packet.enqueued rest + p.count + v.bytecount + 0 = _
    omega
  | @receives p n _ _ hin hp =>
    have hpacket : v.inPacket = p.count := by rw [Endpoint.inPacket, hp]
    rw [hin, total, hpacket]
    exact ⟨rfl, hc, rfl⟩
  | @received p bytecount _ hp hbytes =>
    have hpacket : v.inPacket = p.count := by rw [Endpoint.inPacket, hp]
    rw [hpacket] at hs ⊢
    have hsum : bytecount = v.bytecount + p.count := hbytes.trans (u32_of_lt (by omega))
    show total Packet.enqueued inbox + 0 + bytecount + 0 = _ ∧ v.count + p.count ≤ bytecount ∧ _
    exact ⟨by omega, by omega, rfl⟩
  | _ => exact ⟨rfl, hc, rfl⟩

end EndpointStep

theorem Link.Accounted.step (h : l.Accounted) (hb : l.writer.Bounded) {a : PairAct} (hs : LinkStep growth abandons l a l') :
    l'.Accounted := by
  obtain ⟨h1, h2, h3, h4, h5⟩ := h
  cases hs with
  | @writer act v rest sent hs =>
    obtain ⟨g1, g2, g3⟩ := hs.bytes_write hb h2 (by omega)
    refine ⟨?_, g2, h3, g3.trans h4, h5⟩
    show v.bytecount + v.inPacket = total Packet.enqueued (l.toReader ++ sent) + l.reader.inPacket +
      l.reader.bytecount + total Packet.dequeued rest
    rw [Framing.total_append]
    omega
  | @reader act v rest sent hs =>
    obtain ⟨g1, g2, g3⟩ := hs.bytes_read h3 (by omega)
    refine ⟨?_, h2, g2, h4, g3.trans h5⟩
    show l.writer.bytecount + l.writer.inPacket = total Packet.enqueued rest + v.inPacket + v.bytecount +
      total Packet.dequeued (l.toWriter ++ sent)
    rw [Framing.total_append]
    omega

theorem accounted_of_reachableBy {ok : PairState → PairAct → Prop} {s : PairState}
    (h : (remotePair k arithmetic).ReachableBy ok s) : s.link.Accounted := by
  refine link_invariant (I := Link.Accounted) ?_ ?_ h
  · intro attr hattr _
    refine ⟨rfl, Nat.two_pow_pos 32, Nat.le_of_eq ?_, rfl, rfl⟩
    have hholds := (ThresholdQueue.Carries.create k.malloc
      (RemoteQueue.queueLength attr.length attr.maxThreshold attr.alpha .read) attr.maxThreshold attr.numChannels).holds
    exact (hholds.length_eq 0 hattr.2.2).symm
  · exact fun s a l' hp hI _ hs => hI.step hp.framed.writer hs

/-- What is sent is accepted, as long as the end was not announced. -/
theorem expected_of_sentBy {nc : Nat} (m : Mode) (hsent : p.SentBy m.other nc) : p.Expected m false := by
  unfold Packet.Expected
  unfold Packet.SentBy at hsent
  cases m <;> split at hsent <;> simp_all [Mode.other]

/-- An assertion can fail at an end only over a ring that was left behind, or because an enqueue packet is too large. -/
private theorem stale_or_too_large {nc : Nat} (m : Mode) {sentEnd : Bool}
    (hsent : ∀ p, .header p ∈ inbox → p.SentBy m.other nc) (hh : Handshake sentEnd v.peerShutdown inbox)
    (heof : v.eof = true → v.peerShutdown = true) (hv : v.Faulty m inbox) :
    v.stale = true ∨ ∃ p rest, inbox = .header p :: rest ∧ p.type = .enqueue ∧ 2 ^ 32 ≤ v.count + p.count := by
  rcases hv with hv | ⟨h1, h2⟩ | ⟨p, rest, hin, hp⟩
  · exact .inl hv
  · exact absurd (h2.symm.trans (heof h1)) (by decide)
  · have hheard : v.peerShutdown = false := by
      cases hheard : v.peerShutdown with
      | false => rfl
      | true => simp [hh.nil_of_heard hheard] at hin
    rcases hp with hp | hp
    · rw [hheard] at hp
      exact absurd (expected_of_sentBy m (hsent p (hin ▸ List.mem_cons_self))) hp
    · exact .inr ⟨p, rest, hin, hp⟩

theorem Link.Accounted.stale_reader (h : l.Accounted) (hf : l.Framed) (hs : l.Shutdown)
    (hv : l.reader.Faulty .read l.toReader) : l.reader.stale = true := by
  rcases stale_or_too_large .read hf.toReader hs.toReader hs.eofReader hv with hv | ⟨p, rest, hin, ht, hp⟩
  · exact hv
  · -- the bytes of the packet are counted by the writer
    exfalso
    have htotal : total Packet.enqueued l.toReader = p.count + total Packet.enqueued rest := by
      rw [hin, total, Packet.enqueued, if_pos ht]
    obtain ⟨h1, h2, h3, -, -⟩ := h
    omega

theorem Link.stale_writer (hf : l.Framed) (hs : l.Shutdown) (hv : l.writer.Faulty .write l.toWriter) :
    l.writer.stale = true := by
  rcases stale_or_too_large .write hf.toWriter hs.toWriter hs.eofWriter hv with hv | ⟨p, rest, hin, ht, -⟩
  · exact hv
  · have hsent := hf.toWriter p (hin ▸ List.mem_cons_self)
    simp only [Packet.SentBy, ht] at hsent
    exact absurd hsent.1 (by decide)

end ProcessNetwork
