import ProcessNetwork.RemoteAccounting

/-!
# The stream of bytes

What the writer has enqueued on a channel is, in order: what the reader has dequeued, what the ring of the reader holds,
what has arrived of the packet that is being received, what is on its way to the reader, and what the ring of the writer
holds and has not sent yet (`Link.Streams`).  A step moves bytes from one of these to the one before it.
-/

namespace ProcessNetwork

open Framing (scan place payload)
open SideSound (outEnqueue_read outDequeue_read outEnqueue_write outDequeue_write nodeOpen_of_indequeue
  nodeOpen_of_inenqueue)

variable {k : KernelBase} {arithmetic : Arithmetic} {v v' : Endpoint} {mode : Mode} {act : SideAct} {l l' : Link}
  {inbox wire rest sent : Wire}
  {peerEnded abandons : Bool} {growth : Option (Nat × Nat)} {p : Packet} {c : Nat}

/-- The packet has all its bytes. -/
def Packet.Whole (numChannels : Nat) (p : Packet) : Prop := p.dataLength = p.count * numChannels

/-- The bytes of channel `c` among items of a stream of packets that starts at a cursor. -/
def channelBytes (c : Nat) : Cursor Packet → Wire → List Byte := payload Packet.dataLength fun p n => n / p.count = c

namespace EndpointStep

/-- The writer only begins whole packets, unless it abandons one. -/
theorem whole_write (h : EndpointStep v inbox peerEnded growth false .write act v' rest sent) (hb : v.Bounded)
    (hp : ∀ p n, v.packet = some (p, n) → p.Whole v.numChannels) :
    (∀ p n, v'.packet = some (p, n) → p.Whole v'.numChannels) ∧
      ∀ p, .header p ∈ sent → p.type = .enqueue → p.Whole v.numChannels := by
  cases h with
  | reports _ _ _ hfits =>
    refine ⟨hp, fun p hmem ht => ?_⟩
    obtain ⟨p', hp', heq⟩ := List.mem_map.1 hmem
    cases heq
    exact absurd ht (hfits.sentBy hb hp').2
  | @begins p _ _ _ _ _ _ _ _ _ _ hwhole =>
    refine ⟨fun p' n heq => ?_, fun p' hmem _ => ?_⟩
    · obtain ⟨rfl, -⟩ := Prod.mk.inj (Option.some.inj heq)
      exact hwhole rfl
    · cases List.mem_singleton.1 hmem
      exact hwhole rfl
  | @sends p n b hpn =>
    refine ⟨fun p' n' heq => ?_, fun p' hmem => by simp at hmem⟩
    obtain ⟨rfl, -⟩ := Prod.mk.inj (Option.some.inj heq)
    exact hp p n hpn
  | sent => exact ⟨fun p' n' heq => (by cases heq), fun p' hmem => (by cases hmem)⟩
  | _ => exact ⟨hp, fun p' hmem => (by cases hmem)⟩

private theorem whole_read (h : EndpointStep v inbox peerEnded growth abandons .read act v' rest sent)
    (hp : ∀ p n, v.packet = some (p, n) → p.Whole v.numChannels)
    (hin : ∀ p, .header p ∈ inbox → p.type = .enqueue → p.Whole v.numChannels) :
    ∀ p n, v'.packet = some (p, n) → p.Whole v'.numChannels := by
  cases h with
  | @accepts p rest _ _ _ hbox ht =>
    intro p' n heq
    obtain ⟨rfl, -⟩ := Prod.mk.inj (Option.some.inj heq)
    exact hin p (hbox ▸ List.mem_cons_self) ht
  | @receives p n b rest _ hpn =>
    intro p' n' heq
    obtain ⟨rfl, -⟩ := Prod.mk.inj (Option.some.inj heq)
    exact hp p n hpn
  | received => exact fun p' n' heq => by cases heq
  | _ => exact hp

/-- What the node enqueues is stored at the end, and what is sent is taken from the front. -/
theorem stream_write (h : EndpointStep v inbox peerEnded growth abandons .write act v' rest sent) (hs : v.Shaped .write)
    (hb : v.Bounded) (hwhole : ∀ p n, v.packet = some (p, n) → p.Whole v.numChannels) (hc : c < v.numChannels)
    {xs : List Byte} (hx : v.history c = xs ++ v.unsent c) :
    v'.history c = xs ++ channelBytes c v.cursor sent ++ v'.unsent c := by
  cases h with
  | @reports _ _ r _ _ hp _ _ hfits =>
    have hcur : v.cursor = .idle := by rw [Endpoint.cursor, hp]
    rw [hcur, channelBytes, Framing.payload_headers fun p hmem => ?_, List.append_nil]
    · exact hx
    · obtain ⟨h1, h2⟩ := hfits.sentBy hb hmem
      exact h1.dataLength_eq h2
  | @enqueues n new _ hnew =>
    -- the bytes join the end, and the packet under way lies in front of them
    show v.history c ++ new c = xs ++ [] ++ _
    rw [hx, List.append_nil, List.append_assoc]
    congr 1
    cases hp : v.packet with
    | none => simp [Endpoint.unsent, hp]
    | some r =>
      obtain ⟨p, m⟩ := r
      have hle := (hs.sending rfl (by rw [hp]; simp)).2
      have hlen := hs.length_stored c hc
      rw [Endpoint.inPacket, hp] at hle
      change p.count ≤ v.count at hle
      simp only [Endpoint.unsent, hp]
      rw [List.drop_append_of_le_length (by omega)]
  | @begins p hp =>
    have hnil : channelBytes c v.cursor [.header p] = [] := by
      rw [Endpoint.cursor, hp]
      rfl
    have hunsent : v.unsent c = v.stored c := by rw [Endpoint.unsent, hp]
    rw [hnil, List.append_nil, Endpoint.unsent]
    show v.history c = xs ++ (v.stored c).drop (min p.count (0 - c * p.count))
    rw [Nat.zero_sub, Nat.min_zero, List.drop_zero, ← hunsent]
    exact hx
  | @sends p n b hp hn hbyte =>
    obtain ⟨-, hpos, -, -⟩ := hs.packet p n hp
    have hcur : v.cursor = .inside p n := by
      rw [Endpoint.cursor, hp]
      exact if_pos hn
    have hnew : channelBytes c v.cursor [.byte b] = if n / p.count = c then [b] else [] := by
      rw [hcur, channelBytes]
      simp [payload]
    have hunsent : v.unsent c = (v.stored c).drop (min p.count (n - c * p.count)) := by rw [Endpoint.unsent, hp]
    rw [hunsent] at hx
    rw [hnew, Endpoint.unsent, List.append_assoc]
    show v.history c = xs ++ (_ ++ (v.stored c).drop (min p.count (n + 1 - c * p.count)))
    rw [hx]
    congr 1
    -- the byte is the next one of its channel; the other channels have been sent, or are still to be
    rcases Framing.channel_cases hpos c n with ⟨rfl, h1, h2, hlt⟩ | ⟨hne, h1, h2⟩ | ⟨hne, h1, h2⟩
    · rw [if_pos rfl, h1, h2, Nat.min_eq_right (by omega), Nat.min_eq_right (by omega)]
      obtain ⟨hlen, hb'⟩ := List.getElem?_eq_some_iff.1 hbyte
      rw [List.drop_eq_getElem_cons hlen, hb']
      rfl
    · rw [if_neg (Ne.symm hne), Nat.min_eq_left h1, Nat.min_eq_left h2, List.nil_append]
    · rw [if_neg (Ne.symm hne), h1, h2, List.nil_append]
  | @sent p _ hp =>
    have hdata : p.dataLength = p.count * v.numChannels := hwhole p _ hp
    have hall : (c + 1) * p.count ≤ v.numChannels * p.count := Nat.mul_le_mul_right _ hc
    rw [Nat.add_mul, Nat.one_mul] at hall
    rw [Nat.mul_comm] at hdata
    have hunsent : v.unsent c = (v.stored c).drop (min p.count (p.dataLength - c * p.count)) := by
      rw [Endpoint.unsent, hp]
    show v.history c = xs ++ [] ++ (v.stored c).drop p.count
    rw [hx, hunsent, List.append_nil, Nat.min_eq_left (by omega)]
  | _ =>
    show _ = xs ++ [] ++ _
    rw [List.append_nil]
    exact hx

/-- What the reader takes is appended to what has arrived, then stored, then dequeued. -/
theorem stream_read (h : EndpointStep v inbox peerEnded growth abandons .read act v' rest sent) (hs : v.Shaped .read)
    (hwhole : ∀ p n, v.packet = some (p, n) → p.Whole v.numChannels) {m : Mode} {nc : Nat}
    (hin : ∀ p, .header p ∈ inbox → p.SentBy m nc) {e : Cursor Packet}
    (hscan : scan Packet.dataLength v.cursor inbox = some e) :
    v'.history c ++ v'.stored c ++ v'.arrived c ++ channelBytes c v'.cursor rest =
      v.history c ++ v.stored c ++ v.arrived c ++ channelBytes c v.cursor inbox := by
  -- a header with no payload takes nothing from the stream
  have hheader : ∀ {p : Packet} {rest : Wire}, inbox = .header p :: rest → p.type ≠ .enqueue →
      channelBytes c v.cursor inbox = channelBytes c v.cursor rest := by
    intro p rest hbox ht
    have hd := (hin p (hbox ▸ List.mem_cons_self)).dataLength_eq ht
    rw [hbox] at hscan ⊢
    cases hc : v.cursor with
    | idle =>
      rw [channelBytes, payload, place, hd, if_neg (Nat.lt_irrefl 0)]
    | inside p' n =>
      rw [hc] at hscan
      cases hscan
  cases h with
  | hearsGrow hbox ht =>
    rw [hheader hbox (by rw [ht]; decide)]
    rfl
  | hears hbox ht => rw [hheader hbox (by rcases ht with ht | ht | ht <;> rw [ht] <;> decide)]
  | hearsEnd hbox _ ht =>
    rw [hheader hbox (by rw [ht]; decide)]
    rfl
  | @dequeues n =>
    show v.history c ++ (v.stored c).take n ++ (v.stored c).drop n ++ _ ++ _ = _
    rw [List.append_assoc (v.history c), List.take_append_drop]
    rfl
  | @accepts p rest _ _ _ hbox _ hp =>
    have hcur : v.cursor = .idle := by rw [Endpoint.cursor, hp]
    rw [hcur, hbox, hs.arrived_none hp]
    rfl
  | @receives p n b rest hbox hp hn =>
    have hcur : v.cursor = .inside p n := by
      rw [Endpoint.cursor, hp]
      exact if_pos hn
    have hnew : channelBytes c (.inside p n) (.byte b :: rest) =
        (if n / p.count = c then [b] else []) ++ channelBytes c (place Packet.dataLength p (n + 1)) rest := by
      rw [channelBytes, payload]
      simp
    rw [hcur, hbox, hnew]
    show _ ++ _ ++ Function.update v.arrived (n / p.count) (v.arrived (n / p.count) ++ [b]) c ++ _ = _
    -- the byte belongs to one channel
    by_cases hc : c = n / p.count
    · rw [hc, Function.update_self, if_pos rfl]
      simp only [List.append_assoc]
      rfl
    · rw [Function.update_of_ne hc, if_neg (Ne.symm hc), List.nil_append]
      rfl
  | @received p _ new hp _ hnew =>
    have hcur : v.cursor = .idle := by
      rw [Endpoint.cursor, hp]
      exact if_neg (Nat.lt_irrefl _)
    rw [hcur, hnew (hwhole p _ hp)]
    show v.history c ++ (v.stored c ++ v.arrived c) ++ [] ++ _ = _
    simp only [List.append_assoc, List.nil_append]
    rfl
  | _ => rfl

end EndpointStep

/-- Every byte that the writer has enqueued is in one place, and in order. -/
structure Link.Streams (l : Link) : Prop where
  framed : l.Framed
  whole : ∀ p, .header p ∈ l.toReader → p.type = .enqueue → p.Whole l.writer.numChannels
  writer : ∀ p n, l.writer.packet = some (p, n) → p.Whole l.writer.numChannels
  reader : ∀ p n, l.reader.packet = some (p, n) → p.Whole l.reader.numChannels
  stream : ∀ c < l.writer.numChannels, l.writer.history c = l.reader.history c ++ l.reader.stored c ++
    l.reader.arrived c ++ channelBytes c l.reader.cursor l.toReader ++ l.writer.unsent c

private theorem Link.Streams.step (h : l.Streams) (hw : l.writer.Shaped .write) (hr : l.reader.Shaped .read) {a : PairAct}
    (hs : LinkStep growth false l a l') : l'.Streams := by
  have hframed := h.framed.step hs
  cases hs with
  | @writer act v rest sent hs =>
    obtain ⟨hpacket, hsent⟩ := hs.whole_write h.framed.writer h.writer
    refine ⟨hframed, fun p hp ht => ?_, hpacket, h.reader, fun c hc => ?_⟩
    · rw [show v.numChannels = l.writer.numChannels from hs.numChannels_eq]
      obtain hp | hp := List.mem_append.1 hp
      · exact h.whole p hp ht
      · exact hsent p hp ht
    · change c < v.numChannels at hc
      rw [hs.numChannels_eq] at hc
      show v.history c = _ ++ channelBytes c l.reader.cursor (l.toReader ++ sent) ++ v.unsent c
      rw [channelBytes, Framing.payload_append h.framed.scan, ← List.append_assoc]
      exact hs.stream_write hw h.framed.writer h.writer hc (h.stream c hc)
  | @reader act v rest sent hs =>
    refine ⟨hframed, fun p hp => h.whole p (hs.mem_inbox hp), h.writer, ?_, fun c hc => ?_⟩
    · exact hs.whole_read h.reader fun p hp ht => h.framed.numChannels ▸ h.whole p hp ht
    · show l.writer.history c = v.history c ++ v.stored c ++ v.arrived c ++ channelBytes c v.cursor rest ++ _
      rw [hs.stream_read hr h.reader h.framed.toReader h.framed.scan]
      exact h.stream c hc

private theorem Link.Streams.start (k : KernelBase) {attr : SimpleQueueAttr} (hattr : attr.Valid) :
    (pairStart k attr).link.Streams := by
  refine ⟨(pairSound_start k hattr).framed, fun p hp => (by cases hp), fun p n hp => (by cases hp),
    fun p n hp => (by cases hp), fun c hc => ?_⟩
  have hstored : ∀ m, ((pairStart k attr).side m).endpoint.stored c = [] := by
    intro m
    have hlen := ((pairSound_start k hattr).shaped m).length_stored c hc
    have hcar := ThresholdQueue.Carries.create k.malloc
      (RemoteQueue.queueLength attr.length attr.maxThreshold attr.alpha m) attr.maxThreshold attr.numChannels
    rw [← List.length_eq_zero_iff, hlen]
    exact (hcar.holds.length_eq 0 hattr.2.2).symm
  have hhistory : ∀ m, ((pairStart k attr).side m).endpoint.history c = [] := by
    intro m
    show Side.onChannels _ (fun _ => []) c = []
    simp [Side.onChannels]
  have harrived := ((pairSound_start k hattr).shaped .read).arrived_none rfl c
  show ((pairStart k attr).side .write).endpoint.history c = ((pairStart k attr).side .read).endpoint.history c ++
    ((pairStart k attr).side .read).endpoint.stored c ++ ((pairStart k attr).side .read).endpoint.arrived c ++ [] ++
    ((pairStart k attr).side .write).endpoint.stored c
  rw [hhistory, hhistory, hstored, hstored, harrived]
  rfl

/-! ### Assertions -/

/-- While no operation leaves its old ring behind, an end fails only where the protocol allows it. -/
theorem EndpointStep.not_failed (h : EndpointStep v inbox peerEnded growth false mode act v' rest sent)
    (hs : v.stale = false) (hf : v.failed = false) (hv : v.Faulty mode inbox → v.stale = true) :
    v'.stale = false ∧ v'.failed = false := by
  cases h with
  | fails hfault => exact absurd (hs.symm.trans (hv hfault)) (by decide)
  | throws => exact ⟨rfl, hf⟩
  | enqueues => exact ⟨rfl, hf⟩
  | dequeues => exact ⟨rfl, hf⟩
  | _ => exact ⟨hs, hf⟩

/-- Nothing has been left behind and nothing has failed. -/
structure Link.Unfailed (l : Link) : Prop where
  shutdown : l.Shutdown
  accounted : l.Accounted
  writer : l.writer.stale = false ∧ l.writer.failed = false
  reader : l.reader.stale = false ∧ l.reader.failed = false

private theorem Link.Unfailed.step (h : l.Unfailed) (hf : l.Framed) (hw : l.writer.Shaped .write)
    (hr : l.reader.Shaped .read)
    {a : PairAct} (hs : LinkStep growth false l a l') : l'.Unfailed := by
  refine ⟨h.shutdown.step hw hr hs, h.accounted.step hf.writer hs, ?_, ?_⟩
  · cases hs with
    | writer hs => exact hs.not_failed h.writer.1 h.writer.2 (Link.stale_writer hf h.shutdown)
    | reader hs => exact h.writer
  · cases hs with
    | writer hs => exact h.reader
    | reader hs => exact hs.not_failed h.reader.1 h.reader.2 (h.accounted.stale_reader hf h.shutdown)

/-- No node has an operation that throws while its region lies in a ring that has been replaced, and no packet is begun
that is too long for the counters of `WriteBytes`. -/
def Keeps (s : PairState) (a : PairAct) : Prop := (s.side a.mode).abandons a.act = false

instance : DecidableRel Keeps := fun s a => inferInstanceAs (Decidable ((s.side a.mode).abandons a.act = false))

private theorem streams_of_reachableBy {s : PairState} (h : (remotePair k arithmetic).ReachableBy Keeps s) :
    s.link.Streams := by
  refine link_invariant (I := Link.Streams) (fun _ hattr _ => .start k hattr) ?_ h
  intro s a l' hp hI hok hs
  rw [hok] at hs
  exact hI.step (hp.shaped .write) (hp.shaped .read) hs

private theorem unfailed_of_reachableBy {s : PairState} (h : (remotePair k arithmetic).ReachableBy Keeps s) :
    s.link.Unfailed := by
  refine link_invariant (I := Link.Unfailed) ?_ ?_ h
  · intro attr hattr ha
    have hr : (remotePair k arithmetic).ReachableBy Keeps (pairStart k attr) := .init ⟨attr, hattr, ha, rfl⟩
    exact ⟨shutdown_of_reachableBy hr, accounted_of_reachableBy hr, ⟨rfl, rfl⟩, ⟨rfl, rfl⟩⟩
  · intro s a l' hp hI hok hs
    rw [hok] at hs
    exact hI.step hp.framed (hp.shaped .write) (hp.shaped .read) hs

/-! ### Integrity of the stream -/

/-- What the node and the action thread of a side read from and write to is in the blocks of its rings. -/
structure Side.InBlocks (s : Side) : Prop where
  node : ∀ p ∈ s.ptrs, s.q.inBlock p.ptr p.thresh = true
  receiving : ∀ p ptrs n, s.action = .receiving p ptrs n → ∀ ptr ∈ ptrs, s.q.inBlock ptr p.count = true
  sending : ∀ p ptrs n, s.action = .sending p ptrs n → ∀ ptr ∈ ptrs, s.q.inBlock ptr p.count = true

private theorem SideSound.inBlocks {s : Side} (h : SideSound k s) (hfits : s.q.Fits) : s.InBlocks := by
  have hst : s.q.toThresholdQueue.Carries s.q.queue.contents s.outEnqueue s.outDequeue := h.stored
  have hat := h.action
  refine ⟨fun p hp => ?_, fun p ptrs n hact ptr hptr => ?_, fun p ptrs n hact ptr hptr => ?_⟩
  · cases hm : s.q.mode with
    | read =>
      obtain ⟨hin, hchan, hthresh, heq⟩ := h.ptrs_read hm hp
      rw [outDequeue_read hm, nodeOpen_of_indequeue hm hin] at hst
      rw [heq]
      exact hst.inBlock_dequeuePtr hfits hthresh hchan
    | write =>
      obtain ⟨hin, hchan, hthresh, heq⟩ := h.ptrs_write hm hp
      rw [outEnqueue_write hm, nodeOpen_of_inenqueue hm hin] at hst
      rw [heq]
      exact hst.inBlock_enqueuePtr hfits hthresh hchan
  · rw [hact] at hat
    obtain ⟨hm, hi⟩ := hat
    rw [hi.ptrs] at hptr
    obtain ⟨c, hc, rfl⟩ := List.mem_map.1 hptr
    rw [outEnqueue_read hm, Side.packetCount, Side.packet, hact] at hst
    rw [RemoteQueue.actionPtr, hm]
    exact hst.inBlock_enqueuePtr hfits (Nat.le_refl _) (List.mem_range.1 hc)
  · rw [hact] at hat
    obtain ⟨hm, -, hi⟩ := hat
    rw [hi.ptrs] at hptr
    obtain ⟨c, hc, rfl⟩ := List.mem_map.1 hptr
    rw [outDequeue_write hm, Side.packetCount, Side.packet, hact] at hst
    rw [RemoteQueue.actionPtr, hm]
    exact hst.inBlock_dequeuePtr hfits (Nat.le_refl _) (List.mem_range.1 hc)

/-- The stream between the two ends is intact, and no assertion has failed. -/
structure StreamIntact (s : PairState) : Prop where
  front : ∀ c < (s.side .write).q.queue.numChannels,
    (s.side .read).history c ++ (s.side .read).q.queue.contents c <+: (s.side .write).history c
  whole : (s.side .write).packet = none → (s.side .read).packet = none → ∀ c < (s.side .write).q.queue.numChannels,
    (s.side .read).history c ++ (s.side .read).q.queue.contents c ++ channelBytes c .idle (s.wire .write) ++
      (s.side .write).q.queue.contents c = (s.side .write).history c
  failed : ∀ m, (s.side m).failed = none
  inBlocks : ∀ m, (s.side m).InBlocks

/-- In every state in which the sizes of the rings have not wrapped. -/
theorem stream_intact {s : PairState} (h : (remotePair k arithmetic).ReachableBy Keeps s) (hfits : ∀ m, (s.side m).q.Fits) :
    StreamIntact s := by
  have hsound := pairSound_of_reachableBy h
  have hstreams := streams_of_reachableBy h
  have hunfailed := unfailed_of_reachableBy h
  have hnum : (s.side .read).q.queue.numChannels = (s.side .write).q.queue.numChannels := hsound.framed.numChannels
  have hon : ∀ c < (s.side .write).q.queue.numChannels, ∀ m f, (s.side m).onChannels f c = f c := by
    intro c hc m f
    cases m with
    | read => exact if_pos (hnum ▸ hc)
    | write => exact if_pos hc
  have hstream : ∀ c < (s.side .write).q.queue.numChannels, (s.side .write).history c =
      (s.side .read).history c ++ (s.side .read).q.queue.contents c ++ (s.side .read).endpoint.arrived c ++
        channelBytes c (s.side .read).endpoint.cursor (s.wire .write) ++ (s.side .write).endpoint.unsent c := by
    intro c hc
    have hs := hstreams.stream c hc
    rw [← hon c hc .write (s.side .write).history, ← hon c hc .read (s.side .read).history,
      ← hon c hc .read (s.side .read).q.queue.contents]
    exact hs
  refine ⟨fun c hc => ?_, fun hw hr c hc => ?_, fun m => ?_, fun m => (hsound.side m).inBlocks (hfits m)⟩
  · rw [hstream c hc, List.append_assoc, List.append_assoc]
    exact List.prefix_append _ _
  · have hcursor : (s.side .read).endpoint.cursor = .idle := by
      rw [Endpoint.cursor, show (s.side .read).endpoint.packet = none from hr]
    have hunsent : (s.side .write).endpoint.unsent c = (s.side .write).q.queue.contents c := by
      rw [Endpoint.unsent, show (s.side .write).endpoint.packet = none from hw]
      exact hon c hc .write _
    rw [hstream c hc, (hsound.shaped .read).arrived_none hr, hcursor, hunsent, List.append_nil]
  · have hfail : (s.side m).failed.isSome = false := by
      cases m with
      | read => exact hunfailed.reader.2
      | write => exact hunfailed.writer.2
    simpa using hfail

/-- The writer enqueues two bytes and sends them. -/
theorem stream_intact_sent : ∃ s, (remotePair (.standard false)).ReachableBy Keeps s ∧
    (s.side .write).q.bytecount = 2 ∧ StreamIntact s := by
  have hrun : (((remotePair (.standard false)).runBy Keeps (pairStart (.standard false) (.halved 4 2))
      [atWriter (.getRawPtr 2 0), atWriter .pass, atWriter (.commit 2), atWriter .check, atWriter (.readDone false),
        atWriter .sendPass, atWriter .send, atWriter .send, atWriter .sent]).any
      fun s => (s.side .write).q.bytecount = 2 ∧ (s.side .read).q.Fits ∧ (s.side .write).q.Fits) = true := by
    decide +kernel
  obtain ⟨s, hs, hp⟩ := Machine.exists_reachableBy (M := remotePair (.standard false)) ⟨_, by decide, rfl, rfl⟩ hrun
  obtain ⟨hcount, hread, hwrite⟩ := of_decide_eq_true hp
  refine ⟨s, hs, hcount, stream_intact hs fun m => ?_⟩
  cases m with
  | read => exact hread
  | write => exact hwrite

/-- The reader grows the queue while the writer holds a pointer; the writer then shuts down, its `Enqueue` throws, and its
next call fails an assertion. -/
theorem enqueue_leaves_old_ring : ∃ s, (remotePair (.standard false)).Reachable s ∧
    (s.side .write).failed = some (.assert "inenqueue") ∧ ¬StreamIntact s := by
  have hrun : (((remotePair (.standard false)).runBy (fun _ _ => True) (pairStart (.standard false) (.halved 4 2))
      [atWriter (.getRawPtr 2 0), atWriter .pass, atReader (.grow 100 2), atReader .check, atReader (.readDone false),
        atWriter .check, atWriter .readPacket, atWriter (.readDone false), atWriter .sendPass, atWriter .shutdown,
        atWriter (.commit 0), atWriter (.getRawPtr 1 0), atWriter .pass]).any
      fun s => (s.side .write).failed = some (.assert "inenqueue")) = true := by
    decide +kernel
  obtain ⟨s, hs, hp⟩ := Machine.exists_reachableBy (M := remotePair (.standard false)) ⟨_, by decide, rfl, rfl⟩ hrun
  have hp := of_decide_eq_true hp
  refine ⟨s, hs, hp, fun h => ?_⟩
  rw [h.failed .write] at hp
  cases hp

end ProcessNetwork
