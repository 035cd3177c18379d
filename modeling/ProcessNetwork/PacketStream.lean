import ProcessNetwork.Lib.Resync
import ProcessNetwork.PacketHeader

/-!
# Packets on a byte stream

`PacketDecoder` collects the bytes of a header and calls `FirePacket` when it has 64 of them that begin with the sync
word; otherwise it drops the first byte and goes on (`CPN/PacketDecoder.cc`).  The handler of a packet may take the
payload off the stream before the decoder sees what follows.  What the decoder fires is what the scan of the stream
finds (`Resync.scan`), however the stream is cut into pieces, up to a header with a type that `FirePacket` does not know.
`PacketEncoder::SendPacket` writes the header and the payload, so the packets that were sent are the ones that are fired.
-/

namespace ProcessNetwork

/-- `PacketHandler::FirePacket`, up to the call of the handler. -/
def firePacket (p : PacketHeader) : Except Fault PacketType := do
  ensure p.valid "Invalid packet"
  match PacketType.ofCode? p.dataType with
  | some t => .ok t
  | none => .error (.assert "Invalid packet type.")

structure PacketDecoder where
  header : Nat → Byte
  numbytes : Nat

namespace PacketDecoder

def init : PacketDecoder := ⟨fun _ => 0, 0⟩

/-- The packet in the buffer of the decoder. -/
def packet (d : PacketDecoder) : PacketHeader := ⟨slice d.header 0 headerLength, length_slice ..⟩

/-- The amount that `GetDecoderBytes` offers, behind the bytes that the decoder has. -/
def getDecoderBytes (d : PacketDecoder) : Except Fault Nat := do
  let amount := headerLength - d.numbytes
  ensure (amount ≠ 0) "Zero decoder bytes"
  .ok amount

/-- A store through the pointer of `GetDecoderBytes`. -/
def store (d : PacketDecoder) (bytes : List Byte) : PacketDecoder :=
  { d with header := memcpy d.header d.numbytes (bytes.getD · 0) 0 bytes.length }

/-- `ReleaseDecoderBytes`, and the packet that it fires. -/
def releaseDecoderBytes (d : PacketDecoder) (amount : Nat) : Except Fault (Option PacketHeader × PacketDecoder) := do
  ensure (d.numbytes + amount ≤ headerLength) "numbytes + amount <= sizeof(header.header)"
  let d := { d with numbytes := d.numbytes + amount }
  if d.numbytes = headerLength then
    if d.packet.valid then
      let _ ← firePacket d.packet
      .ok (some d.packet, { d with numbytes := 0 })
    else .ok (none, { header := memcpy d.header 0 d.header 1 (d.numbytes - 1), numbytes := d.numbytes - 1 })
  else .ok (none, d)

/-- The loop that moves a stream to the decoder: each time as many bytes as are available (the numbers of the list) and
asked for.  The handler of a packet takes `take` bytes off the stream.  The result is what has been fired, with the bytes
that the handler has taken, and the decoder and the rest of the stream, unless an assertion has failed. -/
def transfer (take : PacketHeader → Nat) (d : PacketDecoder) (s : List Byte) :
    List Nat → List (PacketHeader × List Byte) × Except Fault (PacketDecoder × List Byte)
  | [] => ([], .ok (d, s))
  | available :: ns =>
    match d.getDecoderBytes with
    | .error fault => ([], .error fault)
    | .ok requested =>
      let bytes := s.take (min available requested)
      let rest := s.drop (min available requested)
      match (d.store bytes).releaseDecoderBytes bytes.length with
      | .error fault => ([], .error fault)
      | .ok (none, d) => transfer take d rest ns
      | .ok (some p, d) =>
        let r := transfer take d (rest.drop (take p)) ns
        ((p, rest.take (take p)) :: r.1, r.2)

/-- The bytes that the decoder keeps. -/
def window (d : PacketDecoder) : List Byte := slice d.header 0 d.numbytes

end PacketDecoder

/-- A packet with its payload, as `SendPacket` is given it. -/
structure Message where
  packet : PacketHeader
  data : List Byte
  valid : packet.valid = true
  type : (PacketType.ofCode? packet.dataType).isSome = true
  length_data : data.length = packet.dataLength

/-- A packet with the given fields. -/
def Message.ofPacket (p : Packet) (data : List Byte) (h : data.length = u32 p.dataLength) : Message where
  packet := .ofPacket p
  data := data
  valid := PacketHeader.valid_ofPacket p
  type := by rw [PacketHeader.dataType_ofPacket, PacketType.ofCode?_code]; rfl
  length_data := by rw [h, PacketHeader.dataLength_ofPacket]

/-- The bytes that `SendPacket` writes. -/
def Message.sendPacket (m : Message) : List Byte := m.packet.pad ++ m.data

/-! ### The reference -/

/-- The bytes begin with the sync word. -/
def beginsWithSyncword (bs : List Byte) : Bool := readField bs 0 4 = syncword

/-- The bytes are a header with a type that `FirePacket` knows. -/
def hasPacketType (bs : List Byte) : Bool := (PacketType.ofCode? (readField bs 8 4)).isSome

/-- The headers in a stream with the payloads behind them, whose lengths are given by `len`. -/
def packetScan (len : List Byte → Nat) (s : List Byte) : List (List Byte × List Byte) :=
  Resync.scan headerLength beginsWithSyncword len s

namespace PacketDecoder

variable {d d' : PacketDecoder} {s bytes : List Byte} {take : PacketHeader → Nat} {len : List Byte → Nat}

private theorem numbytes_init_lt : init.numbytes < headerLength := by decide

@[simp] theorem length_window (d : PacketDecoder) : d.window.length = d.numbytes := length_slice ..

/-- The bytes that were stored are behind those that were there. -/
theorem slice_store (d : PacketDecoder) (bytes : List Byte) :
    slice (d.store bytes).header 0 (d.numbytes + bytes.length) = d.window ++ bytes := by
  apply List.ext_getElem
  · simp
  · intro i hi hi'
    have hlt : i < d.numbytes + bytes.length := by simpa using hi
    rw [getElem_slice, Nat.zero_add]
    show memcpy d.header d.numbytes (bytes.getD · 0) 0 bytes.length i = _
    by_cases h : i < d.numbytes
    · rw [memcpy_outside (.inl h), List.getElem_append_left (by simpa using h)]
      simp [window]
    · obtain ⟨j, rfl⟩ : ∃ j, i = d.numbytes + j := ⟨i - d.numbytes, by omega⟩
      rw [memcpy_inside (by omega), List.getElem_append_right (by simp)]
      simp only [length_window, Nat.add_sub_cancel_left, Nat.zero_add]
      rw [List.getD_eq_getElem?_getD, List.getElem?_eq_getElem (by omega), Option.getD_some]

private theorem slice_memmove (m : Nat → Byte) (n : Nat) :
    slice (memcpy m 0 m 1 (n - 1)) 0 (n - 1) = (slice m 0 n).tail := by
  apply List.ext_getElem
  · simp
  · intro i hi hi'
    have hlt : i < n - 1 := by simpa using hi
    have hmove : memcpy m 0 m 1 (n - 1) (0 + i) = m (1 + i) := memcpy_inside hlt
    rw [Nat.zero_add] at hmove
    simp [hmove, Nat.add_comm]

/-- What the decoder does with a piece. -/
theorem release_cases (hp : d.numbytes + bytes.length ≤ headerLength) :
    (∃ d', (d.store bytes).releaseDecoderBytes bytes.length = .ok (none, d') ∧
      Resync.push headerLength beginsWithSyncword d.window bytes = (none, d'.window)) ∨
    (∃ p d', (d.store bytes).releaseDecoderBytes bytes.length = .ok (some p, d') ∧ hasPacketType p.pad = true ∧
      Resync.push headerLength beginsWithSyncword d.window bytes = (some p.pad, d'.window)) ∨
    ∃ p : PacketHeader, (d.store bytes).releaseDecoderBytes bytes.length = .error (.assert "Invalid packet type.") ∧
      hasPacketType p.pad = false ∧ Resync.push headerLength beginsWithSyncword d.window bytes = (some p.pad, []) := by
  have hslice := slice_store d bytes
  have hlen : (d.window ++ bytes).length = d.numbytes + bytes.length := by simp
  have hnum : (d.store bytes).numbytes = d.numbytes := rfl
  unfold releaseDecoderBytes Resync.push
  rw [hlen, hnum, ensure, if_pos (by simpa using hp)]
  by_cases hfull : d.numbytes + bytes.length = headerLength
  · rw [hfull] at hslice ⊢
    obtain ⟨p, hpacket⟩ : ∃ p, p = ({ d.store bytes with numbytes := headerLength } : PacketDecoder).packet := ⟨_, rfl⟩
    have hpad : p.pad = d.window ++ bytes := by rw [hpacket, ← hslice]; rfl
    simp only [bind, Except.bind, ← hpacket, ← hpad, ↓reduceIte]
    by_cases hv : p.valid = true
    · have hv' : beginsWithSyncword p.pad = true := hv
      rw [if_pos hv, if_pos hv', firePacket, ensure, if_pos hv]
      cases ht : PacketType.ofCode? p.dataType with
      | some t => exact .inr (.inl ⟨p, _, rfl, congrArg Option.isSome ht, rfl⟩)
      | none => exact .inr (.inr ⟨p, rfl, congrArg Option.isSome ht, rfl⟩)
    · have hv' : ¬ beginsWithSyncword p.pad = true := hv
      rw [if_neg hv, if_neg hv']
      refine .inl ⟨_, rfl, ?_⟩
      rw [hpad, ← hslice, ← slice_memmove]
      rfl
  · refine .inl ⟨{ d.store bytes with numbytes := d.numbytes + bytes.length }, ?_, ?_⟩
    · simp only [hfull, if_false]
      rfl
    · rw [if_neg hfull]
      exact congrArg _ hslice.symm

/-- A packet that was fired, as the scan lists it. -/
def scanned (r : PacketHeader × List Byte) : List Byte × List Byte := (r.1.pad, r.2)

/-- The outcome of a transfer, after which the stream `t` is accounted for: what has been fired and what the scan finds
in the rest is what it finds in `t`, or the next packet of the scan has a type that `FirePacket` does not know. -/
def Accounts (len : List Byte → Nat) (t : List Byte)
    (r : List (PacketHeader × List Byte) × Except Fault (PacketDecoder × List Byte)) : Prop :=
  (∀ p ∈ r.1, hasPacketType p.1.pad = true) ∧
    match r.2 with
    | .ok (d, rest) => packetScan len t = r.1.map scanned ++ packetScan len (d.window ++ rest) ∧ d.numbytes < headerLength
    | .error fault => fault = .assert "Invalid packet type." ∧
        ∃ bad rs, packetScan len t = r.1.map scanned ++ bad :: rs ∧ hasPacketType bad.1 = false

private theorem Accounts.congr {t t' : List Byte}
    {r : List (PacketHeader × List Byte) × Except Fault (PacketDecoder × List Byte)}
    (h : Accounts len t r) (hscan : packetScan len t' = packetScan len t) : Accounts len t' r := by
  unfold Accounts
  rw [hscan]
  exact h

/-- A packet that is fired before the rest of the transfer. -/
theorem Accounts.fired {t t' : List Byte} {r : List (PacketHeader × List Byte) × Except Fault (PacketDecoder × List Byte)}
    {p : PacketHeader × List Byte} (h : Accounts len t r) (hp : hasPacketType p.1.pad = true)
    (hscan : packetScan len t' = scanned p :: packetScan len t) : Accounts len t' (p :: r.1, r.2) := by
  obtain ⟨fired, result⟩ := r
  obtain ⟨hall, hrest⟩ := h
  refine ⟨fun q hq => ?_, ?_⟩
  · rcases List.mem_cons.1 hq with rfl | hq
    · exact hp
    · exact hall q hq
  · cases result with
    | ok r =>
      obtain ⟨hscan', hnum⟩ := hrest
      exact ⟨by rw [hscan, hscan']; rfl, hnum⟩
    | error fault =>
      obtain ⟨hf, bad, rs, hscan', hbad⟩ := hrest
      exact ⟨hf, bad, rs, by rw [hscan, hscan']; rfl, hbad⟩

private theorem transfer_accounts (hlen : ∀ p : PacketHeader, len p.pad = take p) (hd : d.numbytes < headerLength)
    (s : List Byte)
    (ns : List Nat) : Accounts len (d.window ++ s) (transfer take d s ns) := by
  induction ns generalizing d s with
  | nil => exact ⟨nofun, rfl, hd⟩
  | cons n ns ih =>
    have hget : d.getDecoderBytes = .ok (headerLength - d.numbytes) := by
      rw [getDecoderBytes, ensure, if_pos (by simp; omega)]
      rfl
    obtain ⟨k, hk⟩ : ∃ k, k = min n (headerLength - d.numbytes) := ⟨_, rfl⟩
    have hp : d.numbytes + (s.take k).length ≤ headerLength := by
      rw [List.length_take]
      omega
    have hpush : (Resync.push headerLength beginsWithSyncword d.window (s.take k)).2.length < headerLength :=
      Resync.length_push_lt (by decide) (by rw [length_window]; exact hp)
    have hscan : packetScan len (d.window ++ (s.take k ++ s.drop k)) = _ := Resync.scan_push (by decide) (s.drop k)
    rw [List.take_append_drop] at hscan
    rw [transfer, hget]
    simp only [← hk]
    rcases release_cases hp with ⟨d', hrel, hw⟩ | ⟨p, d', hrel, ht, hw⟩ | ⟨p, hrel, ht, hw⟩
    · rw [hw] at hpush hscan
      rw [hrel]
      exact (ih (by simpa using hpush) (s.drop k)).congr hscan
    · rw [hw] at hpush hscan
      rw [hrel]
      refine (ih (by simpa using hpush) ((s.drop k).drop (take p))).fired ht ?_
      rw [← hlen p]
      exact hscan
    · rw [hw] at hscan
      rw [hrel]
      exact ⟨nofun, rfl, _, _, hscan, ht⟩

/-! ### The packets of a stream -/

/-- The headers that the scan finds in a stream. -/
def headersIn (s : List Byte) : List (List Byte) := (packetScan (fun _ => 0) s).map Prod.fst

private theorem headersIn_of_length_lt (h : s.length < headerLength) : headersIn s = [] := by
  rw [headersIn, packetScan, Resync.scan_of_length_lt h]
  rfl

/-- The packets that were sent, as the scan lists them. -/
theorem packetScan_sendPacket (ms : List Message) :
    packetScan (readField · 4 4) (ms.flatMap Message.sendPacket) = ms.map fun m => (m.packet.pad, m.data) := by
  have hrecords : ∀ r ∈ ms.map fun m => (m.packet.pad, m.data),
      r.1.length = headerLength ∧ beginsWithSyncword r.1 = true ∧ r.2.length = readField r.1 4 4 := by
    intro r hr
    obtain ⟨m, -, rfl⟩ := List.mem_map.1 hr
    exact ⟨m.packet.length_pad, m.valid, m.length_data⟩
  have hscan : packetScan (readField · 4 4) _ = _ := Resync.scan_records (by decide) hrecords
  rwa [List.flatMap_map] at hscan

/-- The fired packets are a part of the packets that were sent, when they are listed so by the scan. -/
theorem prefix_of_scanned {fired sent : List (PacketHeader × List Byte)} {rs : List (List Byte × List Byte)}
    (h : sent.map scanned = fired.map scanned ++ rs) : ∃ unsent, sent = fired ++ unsent ∧ unsent.map scanned = rs := by
  have hinj : Function.Injective scanned := by
    rintro ⟨⟨bs, hbs⟩, data⟩ ⟨⟨bs', hbs'⟩, data'⟩ h
    cases h
    rfl
  obtain ⟨fired', unsent, rfl, hfired, hunsent⟩ := List.map_eq_append_iff.1 h
  exact ⟨unsent, by rw [List.map_injective_iff.2 hinj hfired], hunsent⟩

/-- However a stream is fed to the decoder, it fires the headers that the scan finds, up to one with a type that
`FirePacket` does not know. -/
theorem transfer_stream (s : List Byte) (ns : List Nat) :
    match transfer (fun _ => 0) .init s ns with
    | (fired, .ok (d, rest)) => fired.map (·.1.pad) ++ headersIn (d.window ++ rest) = headersIn s ∧
        (rest = [] → fired.map (·.1.pad) = headersIn s)
    | (fired, .error fault) => fault = .assert "Invalid packet type." ∧
        fired.map (·.1.pad) = (headersIn s).takeWhile hasPacketType ∧ ∃ p ∈ headersIn s, hasPacketType p = false := by
  have hacc : Accounts (fun _ => 0) s (transfer (fun _ => 0) .init s ns) :=
    transfer_accounts (fun _ => rfl) numbytes_init_lt s ns
  generalize transfer (fun _ => 0) .init s ns = r at hacc ⊢
  obtain ⟨fired, result⟩ := r
  obtain ⟨hall, hrest⟩ := hacc
  cases result with
  | ok r =>
    obtain ⟨d, rest⟩ := r
    obtain ⟨hscan, hnum⟩ := hrest
    have heq : fired.map (·.1.pad) ++ headersIn (d.window ++ rest) = headersIn s := by
      rw [headersIn, headersIn, hscan, List.map_append, List.map_map]
      rfl
    refine ⟨heq, ?_⟩
    rintro rfl
    rwa [headersIn_of_length_lt (by simpa using hnum), List.append_nil] at heq
  | error fault =>
    obtain ⟨hf, bad, rs, hscan, hbad⟩ := hrest
    have heq : headersIn s = fired.map (·.1.pad) ++ bad.1 :: rs.map Prod.fst := by
      rw [headersIn, hscan, List.map_append, List.map_map, List.map_cons]
      rfl
    have hknown : ∀ p ∈ fired.map (·.1.pad), hasPacketType p = true := by
      intro p hp
      obtain ⟨q, hq, rfl⟩ := List.mem_map.1 hp
      exact hall q hq
    refine ⟨hf, ?_, bad.1, by rw [heq]; simp, hbad⟩
    rw [heq, List.takeWhile_append_of_pos hknown, List.takeWhile_cons_of_neg (by simp [hbad]), List.append_nil]

/-- When the stream has been written by `SendPacket`, and each handler takes the payload of its packet, the decoder fires
the packets that were sent. -/
theorem transfer_sent (ms : List Message) (ns : List Nat) :
    match transfer (·.dataLength) .init (ms.flatMap Message.sendPacket) ns with
    | (fired, .ok (_, rest)) => fired <+: ms.map (fun m => (m.packet, m.data)) ∧
        (rest = [] → fired = ms.map fun m => (m.packet, m.data))
    | (_, .error _) => False := by
  have hacc : Accounts (readField · 4 4) (ms.flatMap Message.sendPacket)
      (transfer (·.dataLength) .init (ms.flatMap Message.sendPacket) ns) :=
    transfer_accounts (fun _ => rfl) numbytes_init_lt _ ns
  have hsent : (ms.map fun m => (m.packet, m.data)).map scanned = ms.map fun m => (m.packet.pad, m.data) := by
    rw [List.map_map]
    rfl
  generalize transfer (·.dataLength) .init (ms.flatMap Message.sendPacket) ns = r at hacc ⊢
  obtain ⟨fired, result⟩ := r
  obtain ⟨hall, hrest⟩ := hacc
  cases result with
  | ok r =>
    obtain ⟨d, rest⟩ := r
    obtain ⟨hscan, hnum⟩ := hrest
    rw [packetScan_sendPacket, ← hsent] at hscan
    obtain ⟨unsent, heq, hunsent⟩ := prefix_of_scanned hscan
    refine ⟨⟨unsent, heq.symm⟩, ?_⟩
    rintro rfl
    rw [packetScan, Resync.scan_of_length_lt (by simpa using hnum), List.map_eq_nil_iff] at hunsent
    rw [heq, hunsent, List.append_nil]
  | error fault =>
    obtain ⟨-, bad, rs, hscan, hbad⟩ := hrest
    rw [packetScan_sendPacket] at hscan
    have hmem : bad ∈ ms.map fun m => (m.packet.pad, m.data) := by
      rw [hscan]
      simp
    obtain ⟨m, -, rfl⟩ := List.mem_map.1 hmem
    have htype : hasPacketType m.packet.pad = true := m.type
    rw [htype] at hbad
    cases hbad

/-- Decoding a stream is scanning it, up to a header with a type that `FirePacket` does not know, and decoding what
`SendPacket` has written gives the packets that were sent. -/
theorem packet_stream_decoding :
    (∀ (s : List Byte) (ns : List Nat),
      match transfer (fun _ => 0) .init s ns with
      | (fired, .ok (d, rest)) => fired.map (·.1.pad) ++ headersIn (d.window ++ rest) = headersIn s ∧
          (rest = [] → fired.map (·.1.pad) = headersIn s)
      | (fired, .error fault) => fault = .assert "Invalid packet type." ∧
          fired.map (·.1.pad) = (headersIn s).takeWhile hasPacketType ∧ ∃ p ∈ headersIn s, hasPacketType p = false) ∧
    ∀ (ms : List Message) (ns : List Nat),
      match transfer (·.dataLength) .init (ms.flatMap Message.sendPacket) ns with
      | (fired, .ok (_, rest)) => fired <+: ms.map (fun m => (m.packet, m.data)) ∧
          (rest = [] → fired = ms.map fun m => (m.packet, m.data))
      | (_, .error _) => False :=
  ⟨transfer_stream, transfer_sent⟩

/-- A packet of 64 bytes with a type that is not in the enumeration, and an ordinary one. -/
def unknownThenDequeue : List Byte :=
  ((PacketHeader.initPacket 0 .dequeue).setField 8 4 10 PacketHeader.type_le_headerLength).pad ++
    (PacketHeader.initPacket 0 .dequeue).pad

/-- The scan goes on after a header with an unknown type, and the decoder does not. -/
theorem not_forall_decodes : ¬ ∀ (s : List Byte) (ns : List Nat),
    ∃ d rest, (transfer (fun _ => 0) .init s ns).2 = .ok (d, rest) ∧
      (transfer (fun _ => 0) .init s ns).1.map (·.1.pad) ++ headersIn (d.window ++ rest) = headersIn s := by
  intro h
  obtain ⟨d, rest, hok, -⟩ := h unknownThenDequeue [64, 64]
  have herror : (transfer (fun _ => 0) .init unknownThenDequeue [64, 64]).2.isOk = false := by decide +kernel
  rw [hok] at herror
  cases herror

/-- An enqueue packet whose payload looks like the beginning of a packet. -/
def enqueueSyncword : Message := .ofPacket { Packet.init 4 .enqueue with arg := 4 } (leBytes 4 syncword) (by decide)

theorem packet_stream_decoding_syncword :
    (transfer (·.dataLength) .init ([enqueueSyncword, enqueueSyncword].flatMap Message.sendPacket) [10, 60, 1, 63]).1 =
      [(enqueueSyncword.packet, leBytes 4 syncword), (enqueueSyncword.packet, leBytes 4 syncword)] := by
  have hsent := packet_stream_decoding.2 [enqueueSyncword, enqueueSyncword] [10, 60, 1, 63]
  have hrest : ((transfer (·.dataLength) .init ([enqueueSyncword, enqueueSyncword].flatMap Message.sendPacket)
      [10, 60, 1, 63]).2.toOption.map Prod.snd) = some [] := by decide +kernel
  generalize transfer (·.dataLength) .init ([enqueueSyncword, enqueueSyncword].flatMap Message.sendPacket)
    [10, 60, 1, 63] = r at hsent hrest ⊢
  obtain ⟨fired, result⟩ := r
  cases result with
  | ok r => exact hsent.2 (Option.some.inj hrest)
  | error fault => cases hrest

end PacketDecoder

end ProcessNetwork
