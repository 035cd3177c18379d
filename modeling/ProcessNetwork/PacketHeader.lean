import ProcessNetwork.RemoteQueue

/-!
# `CPN::PacketHeader` as bytes

A packet header is a block of 64 bytes (`CPN/PacketHeader.h`).  The fields are at fixed offsets, least significant byte
first, and the members of a union share an offset: `requested`, `maxThresh` and `count` are one field, and so are the
keys of an ID packet and the clocks of the others.  A field that is written is read back, and writing it leaves the
fields at other offsets alone, so a header that `InitPacket` has set up stays valid whatever is set in it.
-/

namespace ProcessNetwork

/-! ### Numbers as bytes -/

/-- The low `k` bytes of a number, least significant first. -/
def leBytes : Nat → Nat → List Byte
  | 0, _ => []
  | k + 1, n => UInt8.ofNat n :: leBytes k (n / 256)

/-- The number with the given bytes. -/
def ofLe : List Byte → Nat
  | [] => 0
  | b :: bs => b.toNat + 256 * ofLe bs

@[simp] theorem length_leBytes (k n : Nat) : (leBytes k n).length = k := by
  induction k generalizing n with
  | zero => rfl
  | succ k ih => rw [leBytes, List.length_cons, ih]

private theorem ofLe_leBytes (k n : Nat) : ofLe (leBytes k n) = n % 256 ^ k := by
  induction k generalizing n with
  | zero => rw [Nat.pow_zero, Nat.mod_one]; rfl
  | succ k ih =>
    have hpow : 256 ^ (k + 1) = 256 * 256 ^ k := Nat.pow_succ'
    rw [leBytes, ofLe, ih, UInt8.toNat_ofNat', hpow, Nat.mod_mul]

/-- The field of `k` bytes at offset `off` of a block. -/
def readField (bs : List Byte) (off k : Nat) : Nat := ofLe ((bs.drop off).take k)

/-! ### Headers -/

/-- `PACKET_HEADERLENGTH` -/
def headerLength : Nat := 64

/-- `PACKET_SYNCWORD` -/
def syncword : Nat := 0xF1F0C0DE

structure PacketHeader where
  pad : List Byte
  length_pad : pad.length = headerLength
  deriving DecidableEq

namespace PacketHeader

def field (h : PacketHeader) (off k : Nat) : Nat := readField h.pad off k

/-- A store to the field of `k` bytes at offset `off`. -/
def setField (h : PacketHeader) (off k n : Nat) (hk : off + k ≤ headerLength) : PacketHeader where
  pad := h.pad.take off ++ (leBytes k n ++ h.pad.drop (off + k))
  length_pad := by
    have := h.length_pad
    simp only [List.length_append, List.length_take, List.length_drop, length_leBytes]
    omega

/-- The packet type is in the header. -/
theorem type_le_headerLength : 8 + 4 ≤ headerLength := by
  decide

private theorem field_setField (h : PacketHeader) {off k : Nat} (n : Nat) (hk : off + k ≤ headerLength) :
    (h.setField off k n hk).field off k = n % 256 ^ k := by
  have hlen : (h.pad.take off).length = off := by
    rw [List.length_take, h.length_pad]
    omega
  unfold field readField setField
  rw [List.drop_append_of_le_length (by omega), List.drop_of_length_le (by omega), List.nil_append,
    List.take_append_of_le_length (by rw [length_leBytes]), List.take_of_length_le (by rw [length_leBytes]), ofLe_leBytes]

/-- A store leaves the fields before it and behind it alone. -/
theorem field_setField_of_disjoint (h : PacketHeader) {off k off' k' : Nat} (n : Nat) (hk : off + k ≤ headerLength)
    (hd : off' + k' ≤ off ∨ off + k ≤ off') : (h.setField off k n hk).field off' k' = h.field off' k' := by
  have hpad := h.length_pad
  have hlen : (h.pad.take off).length = off := by
    rw [List.length_take, hpad]
    omega
  unfold field readField setField
  congr 1
  rcases hd with hd | hd
  · have hlen' : ((h.pad.take off).drop off').length = off - off' := by rw [List.length_drop, hlen]
    rw [List.drop_append_of_le_length (by omega), List.take_append_of_le_length (by omega), List.drop_take, List.take_take,
      Nat.min_eq_left (by omega)]
  · rw [List.drop_append, List.drop_of_length_le (by omega), List.nil_append, List.drop_append,
      List.drop_of_length_le (by rw [length_leBytes]; omega), List.nil_append, List.drop_drop, hlen, length_leBytes]
    congr 2
    omega

def syncWord (h : PacketHeader) : Nat := h.field 0 4

def dataLength (h : PacketHeader) : Nat := h.field 4 4

def dataType (h : PacketHeader) : Nat := h.field 8 4

/-- `requested`, `maxThresh` or `count` -/
def arg (h : PacketHeader) : Nat := h.field 12 4

/-- `srckey` or `readclock` -/
def readclock (h : PacketHeader) : Nat := h.field 16 8

/-- `dstkey` or `writeclock` -/
def writeclock (h : PacketHeader) : Nat := h.field 24 8

def queueSize (h : PacketHeader) : Nat := h.field 32 4

/-- `ValidPacket` -/
def valid (h : PacketHeader) : Bool := h.syncWord = syncword

end PacketHeader

/-- The number of a packet type in the enumeration. -/
def PacketType.code : PacketType → Nat
  | .enqueue => 0
  | .dequeue => 1
  | .readBlock => 2
  | .writeBlock => 3
  | .endOfWrite => 4
  | .endOfRead => 5
  | .grow => 6
  | .d4rTag => 7
  | .idReader => 8
  | .idWriter => 9

/-- The cases of the `switch` of `FirePacket`. -/
def PacketType.ofCode? : Nat → Option PacketType
  | 0 => some .enqueue
  | 1 => some .dequeue
  | 2 => some .readBlock
  | 3 => some .writeBlock
  | 4 => some .endOfWrite
  | 5 => some .endOfRead
  | 6 => some .grow
  | 7 => some .d4rTag
  | 8 => some .idReader
  | 9 => some .idWriter
  | _ => none

@[simp] theorem PacketType.ofCode?_code (t : PacketType) : ofCode? t.code = some t := by
  cases t <;> rfl

namespace PacketHeader

/-- A block of zeros. -/
def zero : PacketHeader := ⟨List.replicate headerLength 0, List.length_replicate⟩

/-- `InitPacket` -/
def initPacket (datalen : Nat) (type : PacketType) : PacketHeader :=
  ((zero.setField 0 4 syncword (by decide)).setField 4 4 datalen (by decide)).setField 8 4 type.code (by decide)

/-- The header of a packet with the given fields, set up by `InitPacket` and the setters of `Packet`. -/
def ofPacket (p : Packet) : PacketHeader :=
  ((((initPacket p.dataLength p.type).setField 12 4 p.arg (by decide)).setField 16 8 p.readclock (by decide)).setField 24 8
    p.writeclock (by decide)).setField 32 4 p.queueSize (by decide)

/-- The fields of a header, when its type is one of the enumeration. -/
def packet? (h : PacketHeader) : Option Packet :=
  (PacketType.ofCode? h.dataType).map fun t => ⟨t, h.dataLength, h.arg, h.queueSize, h.readclock, h.writeclock⟩

end PacketHeader

/-- The fields of a packet fit into the header. -/
structure Packet.Fits (p : Packet) : Prop where
  dataLength : p.dataLength < 2 ^ 32
  arg : p.arg < 2 ^ 32
  queueSize : p.queueSize < 2 ^ 32
  readclock : p.readclock < 2 ^ 64
  writeclock : p.writeclock < 2 ^ 64

namespace PacketHeader

theorem valid_ofPacket (p : Packet) : (ofPacket p).valid = true := by
  unfold valid syncWord ofPacket initPacket
  rw [field_setField_of_disjoint _ _ _ (by decide), field_setField_of_disjoint _ _ _ (by decide),
    field_setField_of_disjoint _ _ _ (by decide), field_setField_of_disjoint _ _ _ (by decide),
    field_setField_of_disjoint _ _ _ (by decide), field_setField_of_disjoint _ _ _ (by decide), field_setField]
  decide

theorem dataType_ofPacket (p : Packet) : (ofPacket p).dataType = p.type.code := by
  unfold dataType ofPacket initPacket
  rw [field_setField_of_disjoint _ _ _ (by decide), field_setField_of_disjoint _ _ _ (by decide),
    field_setField_of_disjoint _ _ _ (by decide), field_setField_of_disjoint _ _ _ (by decide), field_setField]
  cases p.type <;> rfl

theorem dataLength_ofPacket (p : Packet) : (ofPacket p).dataLength = u32 p.dataLength := by
  unfold dataLength ofPacket initPacket
  rw [field_setField_of_disjoint _ _ _ (by decide), field_setField_of_disjoint _ _ _ (by decide),
    field_setField_of_disjoint _ _ _ (by decide), field_setField_of_disjoint _ _ _ (by decide),
    field_setField_of_disjoint _ _ _ (by decide), field_setField]
  rfl

/-- Every field of a packet is read back from its header. -/
theorem packet?_ofPacket {p : Packet} (h : p.Fits) : (ofPacket p).packet? = some p := by
  have harg : (ofPacket p).arg = p.arg := by
    unfold arg ofPacket
    rw [field_setField_of_disjoint _ _ _ (by decide), field_setField_of_disjoint _ _ _ (by decide),
      field_setField_of_disjoint _ _ _ (by decide), field_setField]
    exact Nat.mod_eq_of_lt h.arg
  have hread : (ofPacket p).readclock = p.readclock := by
    unfold readclock ofPacket
    rw [field_setField_of_disjoint _ _ _ (by decide), field_setField_of_disjoint _ _ _ (by decide), field_setField]
    exact Nat.mod_eq_of_lt h.readclock
  have hwrite : (ofPacket p).writeclock = p.writeclock := by
    unfold writeclock ofPacket
    rw [field_setField_of_disjoint _ _ _ (by decide), field_setField]
    exact Nat.mod_eq_of_lt h.writeclock
  have hsize : (ofPacket p).queueSize = p.queueSize := by
    unfold queueSize ofPacket
    rw [field_setField]
    exact Nat.mod_eq_of_lt h.queueSize
  unfold packet?
  rw [dataType_ofPacket, PacketType.ofCode?_code, dataLength_ofPacket, u32_of_lt h.dataLength, harg, hread, hwrite, hsize]
  rfl

end PacketHeader

end ProcessNetwork
