import ProcessNetwork.RemoteReader

/-!
# Runs of the protocol

Both ends and what is between them, as the protocol sees them.  `link_invariant` is the induction rule with which
properties of the pair are proved: a property of the link that holds at the start and that every step of one of the ends
keeps, holds in every reachable state of the pair.

The rule needs that the two sides stay sound, and for this that the packets are well formed (`Framed`): a header comes
only between packets, and the bytes between the position of the reader and that of the writer are those of the packets.
-/

namespace ProcessNetwork

open Framing (scan place payload total)

/-- Both ends, and what is on its way to each of them. -/
structure Link where
  writer : Endpoint
  reader : Endpoint
  toReader : Wire
  toWriter : Wire

/-- A step of one of the ends, in which its node does what `growth` and `abandons` say. -/
inductive LinkStep (growth : Option (Nat × Nat)) (abandons : Bool) (l : Link) : PairAct → Link → Prop
  | writer {act : SideAct} {v : Endpoint} {rest sent : Wire} :
      EndpointStep l.writer l.toWriter l.reader.sentEnd growth abandons .write act v rest sent →
      LinkStep growth abandons l ⟨.write, act⟩ { l with writer := v, toReader := l.toReader ++ sent, toWriter := rest }
  | reader {act : SideAct} {v : Endpoint} {rest sent : Wire} :
      EndpointStep l.reader l.toReader l.writer.sentEnd growth abandons .read act v rest sent →
      LinkStep growth abandons l ⟨.read, act⟩ { l with reader := v, toReader := rest, toWriter := l.toWriter ++ sent }

def PairState.link (s : PairState) : Link where
  writer := (s.side .write).endpoint
  reader := (s.side .read).endpoint
  toReader := s.wire .write
  toWriter := s.wire .read

/-! ### What holds at one end -/

/-- What holds at an end because its side is sound. -/
structure Endpoint.Shaped (mode : Mode) (v : Endpoint) : Prop where
  length_stored : ∀ c < v.numChannels, (v.stored c).length = v.count
  count_le : v.count ≤ v.length
  bytecount : v.bytecount < 2 ^ 32
  packet : ∀ p n, v.packet = some (p, n) →
    p.type = .enqueue ∧ 0 < p.count ∧ p.dataLength = u32 (p.count * v.numChannels) ∧ n ≤ p.dataLength
  sending : mode = .write → v.packet ≠ none → v.sentEnd = false ∧ v.inPacket ≤ v.count
  arrived : mode = .read → ∀ p n, v.packet = some (p, n) → ∀ c < v.numChannels,
    (v.arrived c).length = min p.count (n - c * p.count)
  arrived_none : v.packet = none → ∀ c, v.arrived c = []

variable {k : KernelBase} {s : Side} {v v' : Endpoint} {mode : Mode} {act : SideAct} {l l' : Link} {inbox rest sent : Wire}
  {peerEnded abandons : Bool} {growth : Option (Nat × Nat)}

/-- The enqueue packet at a side that is being sent or received. -/
theorem SideSound.inPacket (h : SideSound k s) {p : Packet} {n : Nat} (hp : s.packet = some (p, n)) :
    ∃ ptrs, InPacket s.q p ptrs n ∧ (s.q.mode = .write ∧ s.q.sentEnd = false ∨
      s.q.mode = .read ∧ s.action = .receiving p ptrs n) := by
  have hat := h.action
  unfold Side.packet at hp
  cases ha : s.action with
  | receiving p' ptrs n' =>
    rw [ha] at hat hp
    obtain ⟨rfl, rfl⟩ : p' = p ∧ n' = n := by simpa using hp
    exact ⟨ptrs, hat.2, .inr ⟨hat.1, rfl⟩⟩
  | sending p' ptrs n' =>
    rw [ha] at hat hp
    obtain ⟨rfl, rfl⟩ : p' = p ∧ n' = n := by simpa using hp
    exact ⟨ptrs, hat.2.2, .inl ⟨hat.1, hat.2.1⟩⟩
  | _ => simp [ha] at hp

private theorem SideSound.shaped (h : SideSound k s) : s.endpoint.Shaped s.q.mode where
  length_stored c hc := by
    change c < s.q.queue.numChannels at hc
    show (s.onChannels s.q.queue.contents c).length = _
    rw [Side.onChannels, if_pos hc]
    exact h.stored.holds.length_eq c hc
  count_le := h.stored.holds.count_le
  bytecount := h.bytecount
  packet p n hp := by
    obtain ⟨ptrs, hi, -⟩ := h.inPacket hp
    exact ⟨hi.type, hi.count, hi.dataLength, hi.done⟩
  sending hm hne := by
    obtain ⟨⟨p, n⟩, hp⟩ := Option.ne_none_iff_exists'.1 hne
    change s.packet = some (p, n) at hp
    obtain ⟨ptrs, hi, ⟨-, hsent⟩ | ⟨hm', -⟩⟩ := h.inPacket hp
    · have hst := h.stored
      rw [SideSound.outDequeue_write hm, Side.packetCount, hp] at hst
      refine ⟨hsent, ?_⟩
      rw [Endpoint.inPacket, show s.endpoint.packet = some (p, n) from hp]
      exact hst.dequeue_le.1
    · exact absurd (hm'.symm.trans hm) (by decide)
  arrived hm p n hp c hc := by
    change c < s.q.queue.numChannels at hc
    obtain ⟨ptrs, hi, ⟨hm', -⟩ | ⟨-, hact⟩⟩ := h.inPacket hp
    · exact absurd (hm'.symm.trans hm) (by decide)
    · show (s.onChannels s.arrived c).length = _
      rw [Side.onChannels, if_pos hc, Side.arrived, hact]
      dsimp only
      rw [List.length_take, ThresholdQueue.enqueueRegion, ThresholdQueueBase.enqueueRegion, length_slice, Nat.min_comm]
  arrived_none hp c := by
    show s.onChannels s.arrived c = []
    unfold Side.onChannels
    split_ifs
    · exact SideSound.arrived_eq_nil hp c
    · rfl

/-! ### Well-formed packets -/

/-- The packets that the end `mode` sends. -/
def Packet.SentBy (mode : Mode) (numChannels : Nat) (p : Packet) : Prop :=
  match p.type with
  | .enqueue => mode = .write ∧ 0 < p.count ∧ p.count < 2 ^ 32 ∧ p.dataLength = u32 (p.count * numChannels)
  | .dequeue => mode = .read ∧ p.dataLength = 0
  | .readBlock => mode = .read ∧ p.dataLength = 0
  | .writeBlock => mode = .write ∧ p.dataLength = 0
  | .endOfWrite => mode = .write ∧ p.dataLength = 0
  | .endOfRead => mode = .read ∧ p.dataLength = 0
  | .grow => p.dataLength = 0 ∧ p.queueSize < 2 ^ 32 ∧ p.maxThreshold < 2 ^ 32
  | .d4rTag => p.dataLength = 0
  | .idReader => False
  | .idWriter => False

/-- The lengths are `unsigned` values. -/
structure Endpoint.Bounded (v : Endpoint) : Prop where
  readerlength : v.readerlength < 2 ^ 32
  writerlength : v.writerlength < 2 ^ 32
  maxThreshold : v.maxThreshold < 2 ^ 32

/-- The writer does not get more than the whole queue. -/
theorem Alpha.share_le {alpha : Alpha} {len : Nat} (h : len < 2 ^ 32) : alpha.share len ≤ len := by
  have hmul : len * alpha.num ≤ len * alpha.den := Nat.mul_le_mul_left len alpha.num_le
  unfold Alpha.share
  cases ha : alpha.arithmetic with
  | exact => exact Nat.div_le_of_le_mul (by rwa [Nat.mul_comm alpha.den])
  | rounded =>
    obtain ⟨-, e, he⟩ := alpha.binary ha
    refine Nat.div_le_of_le_mul ?_
    rw [he] at hmul ⊢
    rw [Nat.mul_comm (2 ^ e)]
    exact roundTo_le (p := 53) (by decide) (by omega) hmul

private theorem RemoteQueue.queueLength_lt {len mt : Nat} (hlen : len < 2 ^ 32) (hmt : mt < 2 ^ 32) (alpha : Alpha)
    (m : Mode) :
    queueLength len mt alpha m < 2 ^ 32 := by
  cases m with
  | read => exact Nat.max_lt.2 ⟨(Nat.sub_le _ _).trans_lt hlen, hmt⟩
  | write => exact Nat.max_lt.2 ⟨(Alpha.share_le hlen).trans_lt hlen, hmt⟩

/-- A queue of length `len'` has no smaller parts than one of length `len`. -/
def Alpha.Widens (alpha : Alpha) (len len' : Nat) : Prop :=
  alpha.share len ≤ alpha.share len' ∧ len - alpha.share len ≤ len' - alpha.share len'

theorem Alpha.Widens.refl (alpha : Alpha) (len : Nat) : alpha.Widens len len := ⟨Nat.le_refl _, Nat.le_refl _⟩

theorem Alpha.widens_of_exact {alpha : Alpha} (ha : alpha.arithmetic = .exact) {len len' : Nat} (hlen : len ≤ len') :
    alpha.Widens len len' := by
  have hshare (n : Nat) : alpha.share n = n * alpha.num / alpha.den := by rw [Alpha.share, ha]
  rw [Alpha.Widens, hshare, hshare]
  -- the writer's part grows by no more than the length does
  have hrest : len' * alpha.num / alpha.den ≤ len * alpha.num / alpha.den + (len' - len) := by
    have hsplit : len' * alpha.num ≤ len * alpha.num + (len' - len) * alpha.den := by
      calc len' * alpha.num = len * alpha.num + (len' - len) * alpha.num := by
            rw [← Nat.add_mul, Nat.add_sub_cancel' hlen]
        _ ≤ len * alpha.num + (len' - len) * alpha.den :=
            Nat.add_le_add_left (Nat.mul_le_mul_left _ alpha.num_le) _
    calc len' * alpha.num / alpha.den ≤ (len * alpha.num + (len' - len) * alpha.den) / alpha.den :=
          Nat.div_le_div_right hsplit
      _ = len * alpha.num / alpha.den + (len' - len) := Nat.add_mul_div_right _ _ alpha.den_pos
  exact ⟨Nat.div_le_div_right (Nat.mul_le_mul_right _ hlen), by omega⟩

theorem RemoteQueue.queueLength_mono {len len' mt mt' : Nat} {alpha : Alpha} (hlen : alpha.Widens len len')
    (hmt : mt ≤ mt') (m : Mode) : queueLength len mt alpha m ≤ queueLength len' mt' alpha m := by
  cases m with
  | read => exact max_le_max hlen.2 hmt
  | write => exact max_le_max hlen.1 hmt

/-- The parts of a queue add up to its length at least. -/
theorem RemoteQueue.le_parts (len mt : Nat) (alpha : Alpha) :
    len ≤ queueLength len mt alpha .read + queueLength len mt alpha .write := by
  have hread : len - alpha.share len ≤ queueLength len mt alpha .read := Nat.le_max_left _ _
  have hwrite : alpha.share len ≤ queueLength len mt alpha .write := Nat.le_max_left _ _
  omega

theorem RemoteQueue.queueLength_max (len mt mt' : Nat) (alpha : Alpha) (m : Mode) :
    queueLength len (max mt mt') alpha m = max mt (queueLength len mt' alpha m) := by
  cases m with
  | read => exact max_left_comm _ _ _
  | write => exact max_left_comm _ _ _

theorem RemoteQueue.maxThreshold_le_queueLength (len mt : Nat) (alpha : Alpha) (m : Mode) :
    mt ≤ queueLength len mt alpha m := by
  cases m with
  | read => exact Nat.le_max_right _ _
  | write => exact Nat.le_max_right _ _

private theorem Endpoint.Bounded.grow (h : v.Bounded) {len mt : Nat} (hlen : len < 2 ^ 32) (hmt : mt < 2 ^ 32) (b : Bool) :
    (v.grow mode len mt b).Bounded := by
  have hmax : max v.maxThreshold mt < 2 ^ 32 := Nat.max_lt.2 ⟨h.maxThreshold, hmt⟩
  exact ⟨RemoteQueue.queueLength_lt hlen hmax v.alpha .read, RemoteQueue.queueLength_lt hlen hmax v.alpha .write, hmax⟩

/-- The packets of a report have no payload. -/
theorem Endpoint.Report.Fits.sentBy {r : Report} (hr : r.Fits v.toBooks v.count v.maxThreshold mode) (hb : v.Bounded)
    {p : Packet} (hp : p ∈ r.packets) : p.SentBy mode v.numChannels ∧ p.type ≠ .enqueue := by
  simp only [packets, List.mem_append, Option.mem_toList] at hp
  rcases hp with ((hp | hp) | hp) | hp
  · obtain ⟨-, -, ht, hd, hq, hm⟩ := hr.grow p hp
    simp only [Packet.SentBy, ht, hd, hq, hm]
    exact ⟨⟨trivial, Nat.mod_lt _ (by norm_num), hb.maxThreshold⟩, by decide⟩
  · obtain ⟨rfl, -, -, ht, hd, -⟩ := hr.dequeue p hp
    simp [Packet.SentBy, ht, hd]
  · obtain ⟨-, hd, ht | ht⟩ := hr.informs p hp
    · simp [Packet.SentBy, ht, hd]
    · cases mode <;> simp [Packet.SentBy, ht, hd]
  · obtain ⟨-, hd, ht⟩ := hr.ends p hp
    cases mode <;> simp [Packet.SentBy, ht, hd]

theorem Packet.SentBy.dataLength_eq {p : Packet} {n : Nat} (h : p.SentBy mode n) (ht : p.type ≠ .enqueue) :
    p.dataLength = 0 := by
  unfold Packet.SentBy at h
  split at h
  · exact absurd ‹_› ht
  all_goals first | exact h.2 | exact h.1 | exact h | exact h.elim

namespace EndpointStep

theorem numChannels_eq (h : EndpointStep v inbox peerEnded growth abandons mode act v' rest sent) :
    v'.numChannels = v.numChannels := by
  cases h <;> rfl

theorem alpha_eq (h : EndpointStep v inbox peerEnded growth abandons mode act v' rest sent) : v'.alpha = v.alpha := by
  cases h <;> rfl

theorem mem_inbox (h : EndpointStep v inbox peerEnded growth abandons mode act v' rest sent) {x : Item Packet Byte}
    (hx : x ∈ rest) : x ∈ inbox := by
  cases h with
  | hearsGrow hin => exact hin ▸ List.mem_cons_of_mem _ hx
  | hears hin => exact hin ▸ List.mem_cons_of_mem _ hx
  | hearsEnd hin => exact hin ▸ List.mem_cons_of_mem _ hx
  | hearsDequeue hin => exact hin ▸ List.mem_cons_of_mem _ hx
  | accepts hin => exact hin ▸ List.mem_cons_of_mem _ hx
  | receives hin => exact hin ▸ List.mem_cons_of_mem _ hx
  | _ => exact hx

private theorem sentBy (h : EndpointStep v inbox peerEnded growth abandons mode act v' rest sent) (hb : v.Bounded)
    {p : Packet}
    (hp : .header p ∈ sent) : p.SentBy mode v.numChannels := by
  cases h with
  | reports _ _ _ hfits =>
    obtain ⟨p', hp', heq⟩ := List.mem_map.1 hp
    cases heq
    exact (hfits.sentBy hb hp').1
  | begins _ _ _ _ ht hpos _ hmt _ hd _ =>
    obtain rfl : p = _ := by simpa using hp
    have := hb.maxThreshold
    simp only [Packet.SentBy, ht]
    exact ⟨trivial, hpos, by omega, hd⟩
  | sends => simp at hp
  | _ => simp at hp

private theorem bounded (h : EndpointStep v inbox peerEnded growth abandons mode act v' rest sent) (hb : v.Bounded)
    {m : Mode}
    {nc : Nat} (hin : ∀ p, .header p ∈ inbox → p.SentBy m nc) : v'.Bounded := by
  cases h with
  | grows _ hlen hmt => exact hb.grow hlen hmt true
  | @hearsGrow _ p _ hbox ht =>
    have hp := hin p (hbox ▸ List.mem_cons_self)
    simp only [Packet.SentBy, ht] at hp
    exact hb.grow hp.2.1 hp.2.2 _
  | @accepts p _ _ _ _ hbox ht _ _ _ hlen =>
    have hp := hin p (hbox ▸ List.mem_cons_self)
    simp only [Packet.SentBy, ht] at hp
    refine ⟨hb.readerlength, hb.writerlength, ?_⟩
    have hmt := hb.maxThreshold
    rcases hlen with ⟨-, -, heq⟩ | ⟨-, -, heq⟩
    · exact heq ▸ hmt
    · exact heq ▸ Nat.max_lt.2 ⟨hmt, hp.2.2.1⟩
  | _ => exact ⟨hb.readerlength, hb.writerlength, hb.maxThreshold⟩

/-- What the writer sends leads from its old position in the stream of packets to its new one. -/
theorem scan_sent (h : EndpointStep v inbox peerEnded growth abandons .write act v' rest sent) (hb : v.Bounded) :
    scan Packet.dataLength v.cursor sent = some v'.cursor := by
  cases h with
  | reports hp _ _ hfits =>
    have hidle : v.cursor = .idle := by rw [Endpoint.cursor, hp]
    rw [hidle]
    refine (Framing.scan_headers fun p hmem => ?_).trans (congrArg some ?_)
    · obtain ⟨h1, h2⟩ := hfits.sentBy hb hmem
      exact h1.dataLength_eq h2
    · exact hidle.symm
  | begins hp =>
    rw [show v.cursor = .idle by rw [Endpoint.cursor, hp]]
    rfl
  | @sends p n b hp hn =>
    rw [show v.cursor = .inside p n by rw [Endpoint.cursor, hp]; exact if_pos hn]
    rfl
  | @sent p _ hp =>
    rw [show v.cursor = .idle by rw [Endpoint.cursor, hp]; exact if_neg (Nat.lt_irrefl _)]
    rfl
  | _ => rfl

/-- What the reader takes leads from its old position in the stream of packets to its new one. -/
theorem scan_rest (h : EndpointStep v inbox peerEnded growth abandons .read act v' rest sent) {m : Mode} {nc : Nat}
    (hin : ∀ p, .header p ∈ inbox → p.SentBy m nc) {c : Cursor Packet}
    (hscan : scan Packet.dataLength v.cursor inbox = some c) : scan Packet.dataLength v'.cursor rest = some c := by
  have hheader : ∀ p rest, inbox = .header p :: rest → p.type ≠ .enqueue → scan Packet.dataLength v.cursor rest =
    some c := by
    intro p rest hbox ht
    have hd := (hin p (hbox ▸ List.mem_cons_self)).dataLength_eq ht
    rw [hbox] at hscan
    cases hc : v.cursor with
    | idle =>
      rw [hc, scan, place, hd, if_neg (Nat.lt_irrefl 0)] at hscan
      exact hscan
    | inside p' n =>
      rw [hc] at hscan
      cases hscan
  cases h with
  | hearsGrow hbox ht => exact hheader _ _ hbox (by rw [ht]; decide)
  | hears hbox ht => exact hheader _ _ hbox (by rcases ht with ht | ht | ht <;> rw [ht] <;> decide)
  | hearsEnd hbox _ ht => exact hheader _ _ hbox (by rw [ht]; decide)
  | reports hp => exact hscan
  | accepts hbox _ hp =>
    rw [hbox, show v.cursor = .idle by rw [Endpoint.cursor, hp]] at hscan
    exact hscan
  | @receives p n b _ hbox hp hn =>
    rw [hbox, show v.cursor = .inside p n by rw [Endpoint.cursor, hp]; exact if_pos hn] at hscan
    exact hscan
  | received hp =>
    rw [show v.cursor = .idle by rw [Endpoint.cursor, hp]; exact if_neg (Nat.lt_irrefl _)] at hscan
    exact hscan
  | _ => exact hscan

end EndpointStep

/-! ### Sound pairs -/

/-- The packets on their way are well formed. -/
structure Link.Framed (l : Link) : Prop where
  numChannels : l.reader.numChannels = l.writer.numChannels
  alpha : l.reader.alpha = l.writer.alpha
  writer : l.writer.Bounded
  reader : l.reader.Bounded
  toReader : ∀ p, .header p ∈ l.toReader → p.SentBy .write l.writer.numChannels
  toWriter : ∀ p, .header p ∈ l.toWriter → p.SentBy .read l.writer.numChannels
  scan : scan Packet.dataLength l.reader.cursor l.toReader = some l.writer.cursor

theorem Link.Framed.step (h : l.Framed) {a : PairAct} (hs : LinkStep growth abandons l a l') : l'.Framed := by
  cases hs with
  | @writer act v rest sent hs =>
    have hnum := hs.numChannels_eq
    refine ⟨h.numChannels.trans hnum.symm, h.alpha.trans hs.alpha_eq.symm, hs.bounded h.writer h.toWriter, h.reader, ?_, ?_,
      ?_⟩
    · intro p hp
      show p.SentBy .write v.numChannels
      rw [hnum]
      rcases List.mem_append.1 hp with hp | hp
      · exact h.toReader p hp
      · exact hs.sentBy h.writer hp
    · intro p hp
      show p.SentBy .read v.numChannels
      rw [hnum]
      exact h.toWriter p (hs.mem_inbox hp)
    · rw [Framing.scan_append, h.scan]
      exact hs.scan_sent h.writer
  | @reader act v rest sent hs =>
    refine ⟨hs.numChannels_eq.trans h.numChannels, hs.alpha_eq.trans h.alpha, h.writer, hs.bounded h.reader h.toReader,
      ?_, ?_,
      hs.scan_rest h.toReader h.scan⟩
    · exact fun p hp => h.toReader p (hs.mem_inbox hp)
    · intro p hp
      rcases List.mem_append.1 hp with hp | hp
      · exact h.toWriter p hp
      · have := hs.sentBy h.reader hp
        rwa [h.numChannels] at this

/-- Both sides are sound, and what is between them is well formed. -/
structure PairSound (k : KernelBase) (s : PairState) : Prop where
  side : ∀ m, SideSound k (s.side m)
  mode : ∀ m, (s.side m).q.mode = m
  framed : s.link.Framed

namespace PairSound

variable {s t : PairState} {a : PairAct}

theorem shaped (h : PairSound k s) (m : Mode) : (s.side m).endpoint.Shaped m := by
  have := (h.side m).shaped
  rwa [h.mode m] at this

theorem wellFormed (h : PairSound k s) (m : Mode) :
    SideSound.WellFormed (s.side m).q.queue.numChannels (s.wire m.other) := by
  intro p hp ht
  cases m with
  | read =>
    have hsent := h.framed.toReader p hp
    simp only [Packet.SentBy, ht] at hsent
    refine ⟨hsent.2.1, ?_⟩
    rw [show (s.side .read).q.queue.numChannels = (s.side .write).q.queue.numChannels from h.framed.numChannels]
    exact hsent.2.2.2
  | write =>
    have hsent := h.framed.toWriter p hp
    simp only [Packet.SentBy, ht] at hsent
    exact absurd hsent.1 (by decide)

/-- Every step of the pair keeps it sound and is a step of the protocol. -/
theorem next (h : PairSound k s) (hn : pairNext k s a = some t) :
    PairSound k t ∧ LinkStep ((s.side a.mode).growth k a.act) ((s.side a.mode).abandons a.act) s.link a t.link := by
  obtain ⟨m, act⟩ := a
  rw [pairNext, Option.map_eq_some_iff] at hn
  obtain ⟨r, hr, rfl⟩ := hn
  have hsim := (h.side m).next (h.wellFormed m) hr
  have hstep := hsim.step
  rw [h.mode m] at hstep
  have hlink : LinkStep ((s.side m).growth k act) ((s.side m).abandons act) s.link ⟨m, act⟩ (PairState.link
      { side := Function.update s.side m r.side
        wire := Function.update (Function.update s.wire m.other r.rest) m (s.wire m ++ r.sent) }) := by
    cases m with
    | read =>
      simp only [PairState.link, Function.update_self, Mode.other, ne_eq, reduceCtorEq, not_false_eq_true,
        Function.update_of_ne]
      exact .reader hstep
    | write =>
      simp only [PairState.link, Function.update_self, Mode.other, ne_eq, reduceCtorEq, not_false_eq_true,
        Function.update_of_ne]
      exact .writer hstep
  refine ⟨⟨fun m' => ?_, fun m' => ?_, h.framed.step hlink⟩, hlink⟩
  · show SideSound k (Function.update s.side m r.side m')
    by_cases hm : m' = m
    · rw [hm, Function.update_self]
      exact hsim.sound
    · rw [Function.update_of_ne hm]
      exact h.side m'
  · show (Function.update s.side m r.side m').q.mode = m'
    by_cases hm : m' = m
    · rw [hm, Function.update_self]
      exact hsim.mode.trans (h.mode m)
    · rw [Function.update_of_ne hm]
      exact h.mode m'

end PairSound

/-! ### The start -/

theorem sideSound_start (k : KernelBase) {attr : SimpleQueueAttr} (hattr : attr.Valid) (m : Mode) :
    SideSound k (sideStart k attr m) := by
  refine ⟨?_, hattr.2.2, Nat.two_pow_pos 32, ?_, trivial, trivial, fun p hp => absurd hp List.not_mem_nil,
    fun c j b hb => (by cases hb)⟩
  · have hst := (ThresholdQueue.Carries.create k.malloc
      (RemoteQueue.queueLength attr.length attr.maxThreshold attr.alpha m) attr.maxThreshold attr.numChannels).stored
    cases m with
    | read => exact hst
    | write => exact hst
  · cases m with
    | read => rfl
    | write => rfl

theorem pairSound_start (k : KernelBase) {attr : SimpleQueueAttr} (hattr : attr.Valid) :
    PairSound k (pairStart k attr) := by
  have hbound : ∀ m, (sideStart k attr m).endpoint.Bounded := fun m =>
    ⟨RemoteQueue.queueLength_lt hattr.1 hattr.2.1 attr.alpha .read,
      RemoteQueue.queueLength_lt hattr.1 hattr.2.1 attr.alpha .write, Nat.max_lt.2 ⟨hattr.2.1, by norm_num⟩⟩
  exact ⟨sideSound_start k hattr, fun _ => rfl, rfl, rfl, hbound .write, hbound .read,
    fun p hp => absurd hp List.not_mem_nil, fun p hp => absurd hp List.not_mem_nil, rfl⟩

theorem pairSound_of_reachableBy {ok : PairState → PairAct → Prop} {arithmetic : Arithmetic} {s : PairState}
    (h : (remotePair k arithmetic).ReachableBy ok s) : PairSound k s := by
  refine h.invariant ?_ fun s a t hs _ hn => (hs.next hn).1
  rintro s ⟨attr, hattr, -, rfl⟩
  exact pairSound_start k hattr

theorem Mode.eq_or_eq_other (m m' : Mode) : m' = m ∨ m' = m.other := by
  cases m <;> cases m' <;> simp [Mode.other]

/-- The induction rule for properties of one side. -/
theorem side_invariant {ok : PairState → PairAct → Prop} {arithmetic : Arithmetic} {I : Side → Prop}
    (hinit : ∀ (attr : SimpleQueueAttr) (m : Mode), attr.Valid → I (sideStart k attr m))
    (hstep : ∀ (s : Side) (inbox : Wire) (peerEnded : Bool) (act : SideAct) (r : SideStep), SideSound k s → I s →
      sideNext k s inbox peerEnded act = some r → I r.side)
    {s : PairState} (h : (remotePair k arithmetic).ReachableBy ok s) (m : Mode) : I (s.side m) := by
  refine h.invariant_of (I := fun s => ∀ m, I (s.side m)) (fun s hs => pairSound_of_reachableBy hs) ?_ ?_ m
  · rintro s ⟨attr, hattr, -, rfl⟩ m
    exact hinit attr m hattr
  · intro s a t hp hI _ hn m
    obtain ⟨r, hr, hside, hother, -, -⟩ := pairNext_cases hn
    rcases a.mode.eq_or_eq_other m with rfl | rfl
    · rw [hside]
      exact hstep _ _ _ _ r (hp.side _) (hI _) hr
    · rw [hother]
      exact hI _

/-- The induction rule for properties of the link, along runs whose steps meet a condition. -/
theorem link_invariant {ok : PairState → PairAct → Prop} {arithmetic : Arithmetic} {I : Link → Prop}
    (hinit : ∀ attr : SimpleQueueAttr, attr.Valid → attr.alpha.arithmetic = arithmetic → I (pairStart k attr).link)
    (hstep : ∀ s a l', PairSound k s → I s.link → ok s a →
      LinkStep ((s.side a.mode).growth k a.act) ((s.side a.mode).abandons a.act) s.link a l' → I l')
    {s : PairState} (h : (remotePair k arithmetic).ReachableBy ok s) : I s.link := by
  refine h.invariant_of (I := fun s => I s.link) (fun s hs => pairSound_of_reachableBy hs) ?_ ?_
  · rintro s ⟨attr, hattr, ha, rfl⟩
    exact hinit attr hattr ha
  · exact fun s a t hs hI hok hn => hstep s a t.link hs hI hok (hs.next hn).2

end ProcessNetwork
