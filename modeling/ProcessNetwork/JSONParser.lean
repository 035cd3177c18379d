import ProcessNetwork.Variant

/-!
# The JSON parser

`JSON_parser.c`, a table-driven machine that takes one character at a time and calls back at each value, and the class
`JSON::Parser` of `JSONParser/JSONParser.cc` around it.  What is called back is a parameter here: a function that takes the
event, and gives nothing when it returns false.

The stack is a list with the top first, and the parse buffer a list with the last character first; both grow without a bound,
as the depth is not limited.  The assertions of `JSON_parser.c` about its own bookkeeping are left out.
-/

namespace ProcessNetwork.JSON

/-- The classes of characters. -/
inductive CharClass
  | space | white | lcurb | rcurb | lsqrb | rsqrb | colon | comma | quote | backs | slash | plus | minus | point |
    zero | digit
  | lowA | lowB | lowC | lowD | lowE | lowF | lowL | lowN | lowR | lowS | lowT | lowU | abcdf | e | etc | star
  deriving DecidableEq

def asciiClass : List (Option CharClass) :=
  [
    none, none, none, none, none, none, none, none,
    none, some .white, some .white, none, none, some .white, none, none,
    none, none, none, none, none, none, none, none,
    none, none, none, none, none, none, none, none,
    some .space, some .etc, some .quote, some .etc, some .etc, some .etc, some .etc, some .etc,
    some .etc, some .etc, some .star, some .plus, some .comma, some .minus, some .point, some .slash,
    some .zero, some .digit, some .digit, some .digit, some .digit, some .digit, some .digit, some .digit,
    some .digit, some .digit, some .colon, some .etc, some .etc, some .etc, some .etc, some .etc,
    some .etc, some .abcdf, some .abcdf, some .abcdf, some .abcdf, some .e, some .abcdf, some .etc,
    some .etc, some .etc, some .etc, some .etc, some .etc, some .etc, some .etc, some .etc,
    some .etc, some .etc, some .etc, some .etc, some .etc, some .etc, some .etc, some .etc,
    some .etc, some .etc, some .etc, some .lsqrb, some .backs, some .rsqrb, some .etc, some .etc,
    some .etc, some .lowA, some .lowB, some .lowC, some .lowD, some .lowE, some .lowF, some .etc,
    some .etc, some .etc, some .etc, some .etc, some .lowL, some .etc, some .lowN, some .etc,
    some .etc, some .etc, some .lowR, some .lowS, some .lowT, some .lowU, some .etc, some .etc,
    some .etc, some .etc, some .etc, some .lcurb, some .etc, some .rcurb, some .etc, some .etc]

/-- The class of a character, unless it is an error. -/
def charClass (c : Byte) : Option CharClass := if 128 ≤ c then some .etc else (asciiClass.getD c.toNat none)

/-- The states: start, ok, object, key, colon, value, array, string, escape, `\\u` and its digits, minus, zero, integer,
fraction, exponent, the letters of true, false and null, comment, the point, and the second half of a surrogate pair. -/
inductive State
  | go | ok | ob | ke | co | va | ar | st | es | u1 | u2 | u3 | u4 | mi | ze | it | fr | e1 | e2 | e3
  | t1 | t2 | t3 | f1 | f2 | f3 | f4 | n1 | n2 | n3 | c1 | c2 | c3 | fx | d1 | d2
  deriving DecidableEq

/-- The actions.  Those that are plain numbers in the source are, from `-9` to `-2`: `oe` (`}` of an empty object), `oc`
(`}`), `ac` (`]`), `oo` (`{`), `ao` (`[`), `se` (end of a string), `cm` (comma) and `cl` (colon). -/
inductive Action
  | cb | ce | fa | tr | nu | de | df | sb | mx | zx | ix | ex | uc | oe | oc | ac | oo | ao | se | cm | cl
  deriving DecidableEq

/-- An entry of the table: an error, a new state or an action. -/
inductive Entry
  | xx
  | state (s : State)
  | action (a : Action)
  deriving DecidableEq

instance : Coe State Entry := ⟨.state⟩

instance : Coe Action Entry := ⟨.action⟩

section Table

open JSON.State JSON.Action JSON.Entry

def stateTransitionTable : State → List Entry
  | .go => [go, go, oo, xx, ao, xx, xx, xx, xx, xx, cb, xx, xx, xx, xx, xx,
      xx, xx, xx, xx, xx, xx, xx, xx, xx, xx, xx, xx, xx, xx, xx, xx]
  | .ok => [ok, ok, xx, oc, xx, ac, xx, cm, xx, xx, cb, xx, xx, xx, xx, xx,
      xx, xx, xx, xx, xx, xx, xx, xx, xx, xx, xx, xx, xx, xx, xx, xx]
  | .ob => [ob, ob, xx, oe, xx, xx, xx, xx, sb, xx, cb, xx, xx, xx, xx, xx,
      xx, xx, xx, xx, xx, xx, xx, xx, xx, xx, xx, xx, xx, xx, xx, xx]
  | .ke => [ke, ke, xx, xx, xx, xx, xx, xx, sb, xx, cb, xx, xx, xx, xx, xx,
      xx, xx, xx, xx, xx, xx, xx, xx, xx, xx, xx, xx, xx, xx, xx, xx]
  | .co => [co, co, xx, xx, xx, xx, cl, xx, xx, xx, cb, xx, xx, xx, xx, xx,
      xx, xx, xx, xx, xx, xx, xx, xx, xx, xx, xx, xx, xx, xx, xx, xx]
  | .va => [va, va, oo, xx, ao, xx, xx, xx, sb, xx, cb, xx, mx, xx, zx, ix,
      xx, xx, xx, xx, xx, fa, xx, nu, xx, xx, tr, xx, xx, xx, xx, xx]
  | .ar => [ar, ar, oo, xx, ao, ac, xx, xx, sb, xx, cb, xx, mx, xx, zx, ix,
      xx, xx, xx, xx, xx, fa, xx, nu, xx, xx, tr, xx, xx, xx, xx, xx]
  | .st => [st, xx, st, st, st, st, st, st, se, ex, st, st, st, st, st, st,
      st, st, st, st, st, st, st, st, st, st, st, st, st, st, st, st]
  | .es => [xx, xx, xx, xx, xx, xx, xx, xx, st, st, st, xx, xx, xx, xx, xx,
      xx, st, xx, xx, xx, st, xx, st, st, xx, st, u1, xx, xx, xx, xx]
  | .u1 => [xx, xx, xx, xx, xx, xx, xx, xx, xx, xx, xx, xx, xx, xx, u2, u2,
      u2, u2, u2, u2, u2, u2, xx, xx, xx, xx, xx, xx, u2, u2, xx, xx]
  | .u2 => [xx, xx, xx, xx, xx, xx, xx, xx, xx, xx, xx, xx, xx, xx, u3, u3,
      u3, u3, u3, u3, u3, u3, xx, xx, xx, xx, xx, xx, u3, u3, xx, xx]
  | .u3 => [xx, xx, xx, xx, xx, xx, xx, xx, xx, xx, xx, xx, xx, xx, u4, u4,
      u4, u4, u4, u4, u4, u4, xx, xx, xx, xx, xx, xx, u4, u4, xx, xx]
  | .u4 => [xx, xx, xx, xx, xx, xx, xx, xx, xx, xx, xx, xx, xx, xx, uc, uc,
      uc, uc, uc, uc, uc, uc, xx, xx, xx, xx, xx, xx, uc, uc, xx, xx]
  | .mi => [xx, xx, xx, xx, xx, xx, xx, xx, xx, xx, xx, xx, xx, xx, ze, it,
      xx, xx, xx, xx, xx, xx, xx, xx, xx, xx, xx, xx, xx, xx, xx, xx]
  | .ze => [ok, ok, xx, oc, xx, ac, xx, cm, xx, xx, cb, xx, xx, df, xx, xx,
      xx, xx, xx, xx, xx, xx, xx, xx, xx, xx, xx, xx, xx, xx, xx, xx]
  | .it => [ok, ok, xx, oc, xx, ac, xx, cm, xx, xx, cb, xx, xx, df, it, it,
      xx, xx, xx, xx, de, xx, xx, xx, xx, xx, xx, xx, xx, de, xx, xx]
  | .fr => [ok, ok, xx, oc, xx, ac, xx, cm, xx, xx, cb, xx, xx, xx, fr, fr,
      xx, xx, xx, xx, e1, xx, xx, xx, xx, xx, xx, xx, xx, e1, xx, xx]
  | .e1 => [xx, xx, xx, xx, xx, xx, xx, xx, xx, xx, xx, e2, e2, xx, e3, e3,
      xx, xx, xx, xx, xx, xx, xx, xx, xx, xx, xx, xx, xx, xx, xx, xx]
  | .e2 => [xx, xx, xx, xx, xx, xx, xx, xx, xx, xx, xx, xx, xx, xx, e3, e3,
      xx, xx, xx, xx, xx, xx, xx, xx, xx, xx, xx, xx, xx, xx, xx, xx]
  | .e3 => [ok, ok, xx, oc, xx, ac, xx, cm, xx, xx, xx, xx, xx, xx, e3, e3,
      xx, xx, xx, xx, xx, xx, xx, xx, xx, xx, xx, xx, xx, xx, xx, xx]
  | .t1 => [xx, xx, xx, xx, xx, xx, xx, xx, xx, xx, xx, xx, xx, xx, xx, xx,
      xx, xx, xx, xx, xx, xx, xx, xx, t2, xx, xx, xx, xx, xx, xx, xx]
  | .t2 => [xx, xx, xx, xx, xx, xx, xx, xx, xx, xx, xx, xx, xx, xx, xx, xx,
      xx, xx, xx, xx, xx, xx, xx, xx, xx, xx, xx, t3, xx, xx, xx, xx]
  | .t3 => [xx, xx, xx, xx, xx, xx, xx, xx, xx, xx, cb, xx, xx, xx, xx, xx,
      xx, xx, xx, xx, ok, xx, xx, xx, xx, xx, xx, xx, xx, xx, xx, xx]
  | .f1 => [xx, xx, xx, xx, xx, xx, xx, xx, xx, xx, xx, xx, xx, xx, xx, xx,
      f2, xx, xx, xx, xx, xx, xx, xx, xx, xx, xx, xx, xx, xx, xx, xx]
  | .f2 => [xx, xx, xx, xx, xx, xx, xx, xx, xx, xx, xx, xx, xx, xx, xx, xx,
      xx, xx, xx, xx, xx, xx, f3, xx, xx, xx, xx, xx, xx, xx, xx, xx]
  | .f3 => [xx, xx, xx, xx, xx, xx, xx, xx, xx, xx, xx, xx, xx, xx, xx, xx,
      xx, xx, xx, xx, xx, xx, xx, xx, xx, f4, xx, xx, xx, xx, xx, xx]
  | .f4 => [xx, xx, xx, xx, xx, xx, xx, xx, xx, xx, cb, xx, xx, xx, xx, xx,
      xx, xx, xx, xx, ok, xx, xx, xx, xx, xx, xx, xx, xx, xx, xx, xx]
  | .n1 => [xx, xx, xx, xx, xx, xx, xx, xx, xx, xx, xx, xx, xx, xx, xx, xx,
      xx, xx, xx, xx, xx, xx, xx, xx, xx, xx, xx, n2, xx, xx, xx, xx]
  | .n2 => [xx, xx, xx, xx, xx, xx, xx, xx, xx, xx, xx, xx, xx, xx, xx, xx,
      xx, xx, xx, xx, xx, xx, n3, xx, xx, xx, xx, xx, xx, xx, xx, xx]
  | .n3 => [xx, xx, xx, xx, xx, xx, xx, xx, xx, xx, cb, xx, xx, xx, xx, xx,
      xx, xx, xx, xx, xx, xx, ok, xx, xx, xx, xx, xx, xx, xx, xx, xx]
  | .c1 => [xx, xx, xx, xx, xx, xx, xx, xx, xx, xx, xx, xx, xx, xx, xx, xx,
      xx, xx, xx, xx, xx, xx, xx, xx, xx, xx, xx, xx, xx, xx, xx, c2]
  | .c2 => [c2, c2, c2, c2, c2, c2, c2, c2, c2, c2, c2, c2, c2, c2, c2, c2,
      c2, c2, c2, c2, c2, c2, c2, c2, c2, c2, c2, c2, c2, c2, c2, c3]
  | .c3 => [c2, c2, c2, c2, c2, c2, c2, c2, c2, c2, ce, c2, c2, c2, c2, c2,
      c2, c2, c2, c2, c2, c2, c2, c2, c2, c2, c2, c2, c2, c2, c2, c3]
  | .fx => [ok, ok, xx, oc, xx, ac, xx, cm, xx, xx, xx, xx, xx, xx, fr, fr,
      xx, xx, xx, xx, e1, xx, xx, xx, xx, xx, xx, xx, xx, e1, xx, xx]
  | .d1 => [xx, xx, xx, xx, xx, xx, xx, xx, xx, d2, xx, xx, xx, xx, xx, xx,
      xx, xx, xx, xx, xx, xx, xx, xx, xx, xx, xx, xx, xx, xx, xx, xx]
  | .d2 => [xx, xx, xx, xx, xx, xx, xx, xx, xx, xx, xx, xx, xx, xx, xx, xx,
      xx, xx, xx, xx, xx, xx, xx, xx, xx, xx, xx, u1, xx, xx, xx, xx]

end Table

def transition (s : State) (c : CharClass) : Entry := (stateTransitionTable s).getD c.ctorIdx .xx

inductive ValueType
  | none | integer | float | null | true | false | string
  deriving DecidableEq

inductive Mode
  | array | done | key | object
  deriving DecidableEq

/-- What is called back. -/
inductive Event
  | arrayBegin
  | arrayEnd
  | objectBegin
  | objectEnd
  | integer (value : Int)
  | float (text : List Byte)
  | null
  | true
  | false
  | key (s : List Byte)
  | string (s : List Byte)

/-- `struct JSON_parser_struct`. -/
structure JSONParser where
  state : State
  beforeCommentState : State
  type : ValueType
  escaped : Bool
  comment : Bool
  allowComments : Bool
  utf16HighSurrogate : Nat
  stack : List Mode
  parseBuffer : List Byte
  deriving DecidableEq

/-- `sscanf` with `%lld`: a sign, digits, and the value kept in the range of `int64_t`. -/
def scanInteger (text : List Byte) : Int := max (-2 ^ 63) (min (2 ^ 63 - 1) ((readDecimal text).getD 0))

namespace JSONParser

variable {σ : Type}

/-- `new_JSON_parser`. -/
def new (allowComments : Bool) : JSONParser := ⟨.go, .go, .none, false, false, allowComments, 0, [.done], []⟩

def push (jc : JSONParser) (mode : Mode) : JSONParser := { jc with stack := mode :: jc.stack }

def pop (jc : JSONParser) (mode : Mode) : Option JSONParser :=
  match jc.stack with
  | m :: stack => if m = mode then some { jc with stack := stack } else none
  | [] => none

def parseBufferClear (jc : JSONParser) : JSONParser := { jc with parseBuffer := [] }

def parseBufferPushBackChar (jc : JSONParser) (c : Byte) : JSONParser := { jc with parseBuffer := c :: jc.parseBuffer }

def parseBufferPopBackChar (jc : JSONParser) : JSONParser := { jc with parseBuffer := jc.parseBuffer.tail }

/-- The event of the value in the parse buffer. -/
def valueEvent (jc : JSONParser) : Option Event :=
  match jc.type with
  | .none => none
  | .integer => some (.integer (scanInteger jc.parseBuffer.reverse))
  | .float => some (.float jc.parseBuffer.reverse)
  | .null => some .null
  | .true => some .true
  | .false => some .false
  | .string => some (.string jc.parseBuffer.reverse)

def parseParseBuffer (callback : σ → Event → Option σ) (jc : JSONParser) (ctx : σ) : Option (JSONParser × σ) :=
  match jc.valueEvent with
  | none => some (jc.parseBufferClear, ctx)
  | some event => (callback ctx event).map fun ctx => (jc.parseBufferClear, ctx)

/-! ### Escapes -/

def hexValue (c : Byte) : Nat := if 97 ≤ c then c.toNat - 87 else if 65 ≤ c then c.toNat - 55 else c.toNat &&& 0xFFFFFFCF

def isHighSurrogate (uc : Nat) : Bool := uc &&& 0xFC00 = 0xD800

def isLowSurrogate (uc : Nat) : Bool := uc &&& 0xFC00 = 0xDC00

def decodeSurrogatePair (hi lo : Nat) : Nat := ((hi &&& 0x3FF) <<< 10) + (lo &&& 0x3FF) + 0x10000

def utf8LeadBits : List Nat := [0x00, 0xC0, 0xE0, 0xF0]

/-- The UTF-8 bytes of a character, the last one first. -/
def utf8Bytes (uc trailBytes : Nat) : List Byte :=
  (List.range trailBytes).map (fun i => UInt8.ofNat (((uc >>> (6 * i)) &&& 0x3F) ||| 0x80)) ++
    [UInt8.ofNat ((uc >>> (trailBytes * 6)) ||| utf8LeadBits.getD trailBytes 0)]

/-- The last six characters of the buffer are a backslash, `u` and four digits. -/
def decodeUnicodeChar (jc : JSONParser) : Option JSONParser :=
  match jc.parseBuffer with
  | x3 :: x2 :: x1 :: x0 :: _ :: _ :: parseBuffer =>
    let uc := hexValue x0 <<< 12 ||| hexValue x1 <<< 8 ||| hexValue x2 <<< 4 ||| hexValue x3
    if jc.utf16HighSurrogate ≠ 0 then
      if isLowSurrogate uc then
        some { jc with
          utf16HighSurrogate := 0
          parseBuffer := utf8Bytes (decodeSurrogatePair jc.utf16HighSurrogate uc) 3 ++ parseBuffer }
      else none
    else if uc < 0x80 then some { jc with parseBuffer := utf8Bytes uc 0 ++ parseBuffer }
    else if uc < 0x800 then some { jc with parseBuffer := utf8Bytes uc 1 ++ parseBuffer }
    else if isHighSurrogate uc then some { jc with utf16HighSurrogate := uc, parseBuffer := parseBuffer }
    else if isLowSurrogate uc then none
    else some { jc with parseBuffer := utf8Bytes uc 2 ++ parseBuffer }
  | _ => none

/-- `add_escaped_char_to_parse_buffer`. -/
def addEscapedChar (jc : JSONParser) (nextChar : Byte) : Option JSONParser :=
  let jc := { jc with escaped := false }.parseBufferPopBackChar
  if nextChar = 98 then some (jc.parseBufferPushBackChar 8)
  else if nextChar = 102 then some (jc.parseBufferPushBackChar 12)
  else if nextChar = 110 then some (jc.parseBufferPushBackChar 10)
  else if nextChar = 114 then some (jc.parseBufferPushBackChar 13)
  else if nextChar = 116 then some (jc.parseBufferPushBackChar 9)
  else if nextChar = 34 then some (jc.parseBufferPushBackChar 34)
  else if nextChar = 92 then some (jc.parseBufferPushBackChar 92)
  else if nextChar = 47 then some (jc.parseBufferPushBackChar 47)
  else if nextChar = 117 then some ((jc.parseBufferPushBackChar 92).parseBufferPushBackChar 117)
  else none

/-- `add_char_to_parse_buffer`. -/
def addChar (jc : JSONParser) (nextChar : Byte) (nextClass : CharClass) : Option JSONParser :=
  if jc.escaped then jc.addEscapedChar nextChar
  else if ¬ jc.comment ∧ (jc.type ≠ .none ∨ ¬ (nextClass = .space ∨ nextClass = .white)) then
    some (jc.parseBufferPushBackChar nextChar)
  else some jc

/-! ### One character -/

/-- The state to which the end of a comment returns. -/
def stateAfterComment (jc : JSONParser) : State :=
  match jc.stack with
  | .array :: _ | .object :: _ => if jc.state = .va ∨ jc.state = .ar then jc.state else .ok
  | _ => jc.state

def act (callback : σ → Event → Option σ) (jc : JSONParser) (ctx : σ) : Action → Option (JSONParser × σ)
  | .uc => do
    let jc ← jc.decodeUnicodeChar
    some ({ jc with state := if jc.utf16HighSurrogate ≠ 0 then .d1 else .st }, ctx)
  | .ex => some ({ jc with escaped := true, state := .es }, ctx)
  | .mx => some ({ jc with type := .integer, state := .mi }, ctx)
  | .zx => some ({ jc with type := .integer, state := .ze }, ctx)
  | .ix => some ({ jc with type := .integer, state := .it }, ctx)
  | .de => some ({ jc with type := .float, state := .e1 }, ctx)
  | .df => some ({ jc with type := .float, state := .fx }, ctx)
  | .sb => some ({ jc with parseBuffer := [], type := .string, state := .st }, ctx)
  | .nu => some ({ jc with type := .null, state := .n1 }, ctx)
  | .fa => some ({ jc with type := .false, state := .f1 }, ctx)
  | .tr => some ({ jc with type := .true, state := .t1 }, ctx)
  | .ce => some ({ jc with comment := false, state := jc.beforeCommentState }, ctx)
  | .cb =>
    if jc.allowComments then do
      let (jc, ctx) ← parseParseBuffer callback jc.parseBufferPopBackChar ctx
      some ({ jc with beforeCommentState := jc.stateAfterComment, type := .none, state := .c1, comment := true }, ctx)
    else none
  | .oe => do
    let ctx ← callback ctx .objectEnd
    let jc ← jc.parseBufferClear.pop .key
    some ({ jc with state := .ok }, ctx)
  | .oc => do
    let (jc, ctx) ← parseParseBuffer callback jc.parseBufferPopBackChar ctx
    let ctx ← callback ctx .objectEnd
    let jc ← jc.pop .object
    some ({ jc with type := .none, state := .ok }, ctx)
  | .ac => do
    let (jc, ctx) ← parseParseBuffer callback jc.parseBufferPopBackChar ctx
    let ctx ← callback ctx .arrayEnd
    let jc ← jc.pop .array
    some ({ jc with type := .none, state := .ok }, ctx)
  | .oo => do
    let ctx ← callback ctx .objectBegin
    some ({ jc.parseBufferPopBackChar.push .key with state := .ob }, ctx)
  | .ao => do
    let ctx ← callback ctx .arrayBegin
    some ({ jc.parseBufferPopBackChar.push .array with state := .ar }, ctx)
  | .se =>
    let jc := jc.parseBufferPopBackChar
    match jc.stack with
    | .key :: _ => do
      let ctx ← callback ctx (.key jc.parseBuffer.reverse)
      some ({ jc with type := .none, state := .co, parseBuffer := [] }, ctx)
    | .array :: _ | .object :: _ => do
      let (jc, ctx) ← parseParseBuffer callback jc ctx
      some ({ jc with type := .none, state := .ok }, ctx)
    | _ => none
  | .cm => do
    let (jc, ctx) ← parseParseBuffer callback jc.parseBufferPopBackChar ctx
    match jc.stack with
    | .object :: _ => do
      let jc ← jc.pop .object
      some ({ jc.push .key with type := .none, state := .ke }, ctx)
    | .array :: _ => some ({ jc with type := .none, state := .va }, ctx)
    | _ => none
  | .cl => do
    let jc ← jc.parseBufferPopBackChar.pop .key
    some ({ jc.push .object with state := .va }, ctx)

/-- `JSON_parser_char`, or nothing when it returns false. -/
def char (callback : σ → Event → Option σ) (jc : JSONParser) (ctx : σ) (nextChar : Byte) : Option (JSONParser × σ) := do
  let nextClass ← charClass nextChar
  let jc ← jc.addChar nextChar nextClass
  match transition jc.state nextClass with
  | .xx => none
  | .state state => some ({ jc with state := state }, ctx)
  | .action action => jc.act callback ctx action

/-- `JSON_parser_done`. -/
def done (jc : JSONParser) : Option JSONParser := if jc.state = .ok then jc.pop .done else none

end JSONParser

/-! ### The class around it -/

inductive Status
  | ok
  | error
  | done
  deriving DecidableEq

/-- `JSON::Parser`, with what the class derived from it keeps in `derived`. -/
structure Parser (σ : Type) where
  parser : JSONParser
  status : Status
  line : Nat
  column : Nat
  depth : Nat
  derived : σ

namespace Parser

variable {σ : Type}

/-- The state of a new parser, to which `Reset` returns; it allows comments. -/
def new (derived : σ) : Parser σ := ⟨.new true, .ok, 1, 0, 0, derived⟩

/-- `Callback`, on the depth and on what the derived class keeps. -/
def callback (derived : σ → Event → Option σ) (ctx : Nat × σ) (event : Event) : Option (Nat × σ) :=
  (derived ctx.2 event).map fun s =>
    match event with
    | .arrayBegin | .objectBegin => (ctx.1 + 1, s)
    | .arrayEnd | .objectEnd => (ctx.1 - 1, s)
    | _ => (ctx.1, s)

/-- `Parse` of one character. -/
def parse (derived : σ → Event → Option σ) (p : Parser σ) (c : Byte) : Parser σ × Bool :=
  if p.status = .ok then
    let p := if c = 10 then { p with column := 0, line := p.line + 1 } else { p with column := p.column + 1 }
    match p.parser.char (callback derived) (p.depth, p.derived) c with
    | some (parser, depth, s) =>
      let p := { p with parser := parser, depth := depth, derived := s }
      if depth = 0 then
        match parser.done with
        | some parser => ({ p with parser := parser, status := .done }, true)
        | none => (p, true)
      else (p, true)
    | none => ({ p with status := .error }, false)
  else (p, false)

/-- `Parse` of an array of characters: the parser after it and the number of characters that it accepted. -/
def parseAll (derived : σ → Event → Option σ) (p : Parser σ) : List Byte → Parser σ × Nat
  | [] => (p, 0)
  | c :: cs =>
    let (p', good) := p.parse derived c
    if good then
      let (q, n) := parseAll derived p' cs
      (q, n + 1)
    else (p', 0)

end Parser

end ProcessNetwork.JSON
