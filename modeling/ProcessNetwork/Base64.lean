import ProcessNetwork.ThresholdQueueBase
import ProcessNetwork.Lib.Radix64

/-!
# Base64

The encoder and the decoder of `Base64/Base64.cc`.  Both leave their loop when a block ends and go on there with the
next one, so what they do with a block is what they do with its bytes, one after the other.  A `char` is signed.

The length of a block is an `unsigned` in both, so that a block here is what one call can be given.  `DecodeBlock` of a
`std::string` cuts the size of a longer text to an `unsigned`; it is left out.
-/

namespace ProcessNetwork

/-- The value of a `char`. -/
def signed (b : Byte) : Int := b.toInt8.toInt

/-- The bytes of a string literal. -/
def bytes (s : String) : List Byte := s.toList.map fun c => UInt8.ofNat c.toNat

instance : LawfulBEq (List Byte) := inferInstance

def newline : Byte := 10

/-! ### The encoder -/

inductive EncoderStep
  | stepA
  | stepB
  | stepC
  deriving DecidableEq, Repr

structure Base64Encoder where
  step : EncoderStep
  charsPerLine : Nat
  result : Byte
  stepcount : Nat
  output : List Byte

namespace Base64Encoder

def create (cpl : Nat) : Base64Encoder := ⟨.stepA, cpl, 0, 0, []⟩

def encoding : List Byte := bytes "ABCDEFGHIJKLMNOPQRSTUVWXYZabcdefghijklmnopqrstuvwxyz0123456789+/"

def encodeValue (result : Byte) : Byte := if 63 < signed result then 61 else encoding.getD result.toNat 0

/-- `++stepcount`, and a line break when there are enough groups in the line. -/
def endGroup (e : Base64Encoder) : Base64Encoder :=
  if e.charsPerLine = 0 then e
  else
    let stepcount := (e.stepcount + 1) % 2 ^ 32
    if stepcount = e.charsPerLine / 4 then { e with output := e.output ++ [newline], stepcount := 0 }
    else { e with stepcount := stepcount }

/-- One byte of a block. -/
def encodeByte (e : Base64Encoder) (fragment : Byte) : Base64Encoder :=
  match e.step with
  | .stepA =>
    { e with
      step := .stepB
      output := e.output ++ [encodeValue ((fragment &&& 0xfc) >>> 2)]
      result := (fragment &&& 0x03) <<< 4 }
  | .stepB =>
    { e with
      step := .stepC
      output := e.output ++ [encodeValue (e.result ||| (fragment &&& 0xf0) >>> 4)]
      result := (fragment &&& 0x0f) <<< 2 }
  | .stepC =>
    { e with
      step := .stepA
      output := e.output ++ [encodeValue (e.result ||| (fragment &&& 0xc0) >>> 6), encodeValue (fragment &&& 0x3f)]
      result := fragment &&& 0x3f }.endGroup

/-- `EncodeBlock(const void *datain, unsigned inlen)`. -/
def encodeBlock (e : Base64Encoder) (datain : List Byte) : Base64Encoder := datain.foldl encodeByte e

def getPartial (e : Base64Encoder) : Base64Encoder × List Byte := ({ e with output := [] }, e.output)

def reset (e : Base64Encoder) : Base64Encoder := { e with step := .stepA, result := 0, stepcount := 0, output := [] }

def blockEnd (e : Base64Encoder) : Base64Encoder × List Byte :=
  let output := match e.step with
    | .stepB => e.output ++ [encodeValue e.result, 61, 61]
    | .stepC => e.output ++ [encodeValue e.result, 61]
    | .stepA => e.output
  (e.reset, if e.charsPerLine = 0 then output else output ++ [newline])

/-- The calls that can be made in a block. -/
inductive Call
  | encodeBlock (datain : List Byte)
  | getPartial

def Call.data : Call → List Byte
  | encodeBlock datain => datain
  | getPartial => []

/-- Some calls, and what `GetPartial` returned in them. -/
def run (e : Base64Encoder) : List Call → Base64Encoder × List Byte
  | [] => (e, [])
  | .encodeBlock datain :: calls => (e.encodeBlock datain).run calls
  | .getPartial :: calls =>
    let (e, got) := e.getPartial
    let (e, rest) := e.run calls
    (e, got ++ rest)

/-- A whole block, with its text. -/
def block (e : Base64Encoder) (calls : List Call) : Base64Encoder × List Byte :=
  let (e, got) := e.run calls
  let (e, rest) := e.blockEnd
  (e, got ++ rest)

end Base64Encoder

/-! ### The decoder -/

inductive DecoderStep
  | stepA
  | stepB
  | stepC
  | stepD
  deriving DecidableEq, Repr

structure Base64Decoder where
  step : DecoderStep
  currchar : Byte
  output : List Byte

namespace Base64Decoder

def create : Base64Decoder := ⟨.stepA, 0, []⟩

def decoding : List Int :=
  [62, -1, -1, -1, 63, 52, 53, 54, 55, 56, 57, 58, 59, 60, 61, -1, -1, -1, -2, -1, -1, -1, 0, 1, 2, 3, 4, 5, 6, 7, 8, 9,
    10, 11, 12, 13, 14, 15, 16, 17, 18, 19, 20, 21, 22, 23, 24, 25, -1, -1, -1, -1, -1, -1, 26, 27, 28, 29, 30, 31, 32,
    33, 34, 35, 36, 37, 38, 39, 40, 41, 42, 43, 44, 45, 46, 47, 48, 49, 50, 51]

/-- The index that `DecodeValue` reads its table at, unless it returns before. -/
def decodeIndex (valueIn : Byte) : Option Nat :=
  let valueIn := valueIn - 43
  if signed valueIn < 0 ∨ 80 < signed valueIn then none else some valueIn.toNat

/-- `past` is what is in memory behind the table. -/
def decodeValue (past : Int) (valueIn : Byte) : Int :=
  match decodeIndex valueIn with
  | none => -1
  | some i => decoding.getD i past

/-- One character of a block; `fragment` is what `DecodeValue` makes of it. -/
def decodeFragment (d : Base64Decoder) (fragment : Byte) : Base64Decoder :=
  match d.step with
  | .stepA => { d with step := .stepB, currchar := (fragment &&& 0x3f) <<< 2 }
  | .stepB =>
    { d with
      step := .stepC
      output := d.output ++ [d.currchar ||| (fragment &&& 0x30) >>> 4]
      currchar := (fragment &&& 0x0f) <<< 4 }
  | .stepC =>
    { d with
      step := .stepD
      output := d.output ++ [d.currchar ||| (fragment &&& 0x3c) >>> 2]
      currchar := (fragment &&& 0x03) <<< 6 }
  | .stepD =>
    { d with
      step := .stepA
      output := d.output ++ [d.currchar ||| (fragment &&& 0x3f)]
      currchar := d.currchar ||| (fragment &&& 0x3f) }

def decodeByte (past : Int) (d : Base64Decoder) (code : Byte) : Base64Decoder :=
  let fragment := decodeValue past code
  if fragment < 0 then d else d.decodeFragment (UInt8.ofNat fragment.toNat)

/-- `DecodeBlock(const char *codein, unsigned codelen)`. -/
def decodeBlock (past : Int) (d : Base64Decoder) (codein : List Byte) : Base64Decoder := codein.foldl (decodeByte past) d

def getPartial (d : Base64Decoder) : Base64Decoder × List Byte := ({ d with output := [] }, d.output)

def blockEnd (d : Base64Decoder) : Base64Decoder × List Byte :=
  ({ d with step := .stepA, currchar := 0, output := [] }, d.output)

inductive Call
  | decodeBlock (codein : List Byte)
  | getPartial

def Call.data : Call → List Byte
  | decodeBlock codein => codein
  | getPartial => []

/-- Some calls, and what `GetPartial` returned in them. -/
def run (past : Int) (d : Base64Decoder) : List Call → Base64Decoder × List Byte
  | [] => (d, [])
  | .decodeBlock codein :: calls => (d.decodeBlock past codein).run past calls
  | .getPartial :: calls =>
    let (d, got) := d.getPartial
    let (d, rest) := d.run past calls
    (d, got ++ rest)

/-- A whole block, with its bytes. -/
def block (past : Int) (d : Base64Decoder) (calls : List Call) : Base64Decoder × List Byte :=
  let (d, got) := d.run past calls
  let (d, rest) := d.blockEnd
  (d, got ++ rest)

end Base64Decoder

example : ((Base64Encoder.create 72).encodeBlock (bytes "Man")).output = bytes "TWFu" := by decide +kernel

end ProcessNetwork
