import ProcessNetwork.Lib.Unsigned
import ProcessNetwork.JSONParser

/-!
# Variants as JSON

`JSONVariant/JSONToVariant.cc`, which builds a variant from what the parser calls back, and `JSONVariant/VariantToJSON.cc`,
which writes one.  A string of the parser and the string that is written are C strings: they end at the first zero byte.

A nesting level is `unsigned` and wraps.
-/

namespace ProcessNetwork.JSON

/-- A C string as a `std::string`. -/
def cString (s : List Byte) : List Byte := s.takeWhile (· ≠ 0)

/-- How the numbers of the parser become numbers of a variant. -/
structure Numbers (N : Type) where
  ofInteger : Int → N
  strtod : List Byte → N

/-! ### `JSONToVariant` -/

/-- The keys without a value yet and the values that are not complete, with the innermost first. -/
structure JSONToVariant (N : Type) where
  keystack : List (List Byte)
  stack : List (Variant N)

namespace JSONToVariant

variable {N : Type}

def new : JSONToVariant N := ⟨[], []⟩

def addValue (p : JSONToVariant N) (val : Variant N) : Option (JSONToVariant N) :=
  match p.stack with
  | .object m :: stack =>
    match p.keystack with
    | [] => none
    | key :: keystack =>
      if ((Variant.object m).member key).getType ≠ .nullType then none
      else some ⟨keystack, .object (Dictionary.insert key val m) :: stack⟩
  | .array l :: stack => some { p with stack := .array (l ++ [val]) :: stack }
  | _ => some { p with stack := val :: p.stack }

/-- The callbacks. -/
def callback (F : Numbers N) (p : JSONToVariant N) : Event → Option (JSONToVariant N)
  | .arrayBegin => some { p with stack := .array [] :: p.stack }
  | .arrayEnd =>
    match p.stack with
    | .array l :: stack => addValue { p with stack := stack } (.array l)
    | _ => none
  | .objectBegin => some { p with stack := .object [] :: p.stack }
  | .objectEnd =>
    match p.stack with
    | .object m :: stack => addValue { p with stack := stack } (.object m)
    | _ => none
  | .integer value => p.addValue (.number (F.ofInteger value))
  | .float text => p.addValue (.number (F.strtod text))
  | .string s => p.addValue (.string (cString s))
  | .null => p.addValue .null
  | .true => p.addValue (.bool true)
  | .false => p.addValue (.bool false)
  | .key s =>
    match p.stack with
    | .object _ :: _ => some { p with keystack := cString s :: p.keystack }
    | _ => none

end JSONToVariant

/-- The assertion of `VariantFromJSON`. -/
inductive JSONError
  | assertion (text : String) (line column : Nat)
  | noValue

/-- `VariantFromJSON` of a string. -/
def variantFromJSON {N : Type} (F : Numbers N) (json : List Byte) : Except JSONError (Variant N) :=
  let parser := ((Parser.new JSONToVariant.new).parseAll (JSONToVariant.callback F) json).1
  if parser.status = .done then
    match parser.derived.stack with
    | v :: _ => .ok v
    | [] => .error .noValue
  else .error (.assertion "Error parsing JSON line %u column %u" parser.line parser.column)

/-! ### `VariantToJSON` -/

def objSep : List Byte := bytes ": "

def valSep : List Byte := bytes ", "

/-- One digit of `%x`. -/
def hexDigit (n : Nat) : Byte := if n < 10 then UInt8.ofNat (48 + n) else UInt8.ofNat (87 + n)

/-- What `InsertString` writes for a character; `char` is signed, so that a byte from `128` on is negative. -/
def escapeChar (c : Byte) : List Byte :=
  if c = 92 then bytes "\\\\"
  else if c = 34 then bytes "\\\""
  else if c = 47 then bytes "\\/"
  else if c = 8 then bytes "\\b"
  else if c = 12 then bytes "\\f"
  else if c = 10 then bytes "\\n"
  else if c = 13 then bytes "\\r"
  else if c = 9 then bytes "\\t"
  else if 128 ≤ c then [c]
  else if c < 32 then bytes "\\u00" ++ [hexDigit (c.toNat / 16), hexDigit (c.toNat % 16)]
  else [c]

def insertString (str : List Byte) : List Byte := 34 :: ((cString str).flatMap escapeChar ++ [34])

/-- The spaces of `InsertIndent`, in pieces of at most 32. -/
def indentSpaces (level : Nat) : List Byte :=
  if h : level < 16 then List.replicate (level * 2) 32
  else List.replicate 32 32 ++ indentSpaces (level - 16)
termination_by level

def insertIndent (level : Nat) : List Byte := 10 :: indentSpaces level

/-- `InsertIndent` when the text is to be pretty. -/
def indent (pretty : Bool) (level : Nat) : List Byte := if pretty then insertIndent level else []

variable {N : Type}

mutual
def variantToJSON (F : NumberFormat N) (pretty : Bool) : Nat → Variant N → List Byte
  | level, .array l =>
    91 :: (elementsToJSON F pretty level true l ++ (indent pretty (sub32 level 1) ++ [93]))
  | level, .object m =>
    123 :: (membersToJSON F pretty level true m ++ (indent pretty (sub32 level 1) ++ [125]))
  | _, .string s => insertString s
  | _, v => (v.asString F).getD []

/-- The elements of an array; the first one has no separator before it. -/
def elementsToJSON (F : NumberFormat N) (pretty : Bool) : Nat → Bool → List (Variant N) → List Byte
  | _, _, [] => []
  | level, first, v :: l =>
    (if first then [] else valSep) ++ (indent pretty level ++ (variantToJSON F pretty (u32 (level + 1)) v ++
      elementsToJSON F pretty level false l))

def membersToJSON (F : NumberFormat N) (pretty : Bool) : Nat → Bool → List (List Byte × Variant N) → List Byte
  | _, _, [] => []
  | level, first, (k, v) :: m =>
    (if first then [] else valSep) ++ (indent pretty level ++ (insertString k ++ (objSep ++
      (variantToJSON F pretty (u32 (level + 1)) v ++ membersToJSON F pretty level false m))))
end

/-- `VariantToJSON` of a variant, at the first level. -/
def toJSON (F : NumberFormat N) (pretty : Bool) (v : Variant N) : List Byte := variantToJSON F pretty 1 v

end ProcessNetwork.JSON
