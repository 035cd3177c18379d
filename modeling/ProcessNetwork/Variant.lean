import ProcessNetwork.Lib.Dictionary
import ProcessNetwork.Base64

/-!
# Variants

The value of a `Variant` of `Variant/Variant.cc`: null, true, false, a number, a string, an array or an object.  A value
is a finite tree; the members of an object are in the order of their keys, as `std::map` keeps them.  The numbers are
those of an arbitrary type `N`, which stands for `long double`.
-/

namespace ProcessNetwork

instance : LinearOrder Byte where
  le_refl := UInt8.le_refl
  le_trans _ _ _ := UInt8.le_trans
  le_antisymm _ _ := UInt8.le_antisymm
  le_total := UInt8.le_total
  lt_iff_le_not_ge a b := by
    rw [UInt8.not_le]
    exact ⟨fun h => ⟨UInt8.le_of_lt h, h⟩, fun h => h.2⟩
  toDecidableLE := inferInstance
  toDecidableLT := inferInstance
  toDecidableEq := inferInstance

/-- How a number is written to a stream, which never writes nothing, and how it is read from one. -/
structure NumberFormat (N : Type) where
  text : N → List Byte
  parse : List Byte → Option N
  text_ne_nil : ∀ n, text n ≠ []

/-! ### Integers in decimal -/

def decimalNat (n : Nat) : List Byte :=
  if n = 0 then [48] else (Nat.digits 10 n).reverse.map fun d => UInt8.ofNat (48 + d)

def decimal : Int → List Byte
  | .ofNat n => decimalNat n
  | .negSucc n => 45 :: decimalNat (n + 1)

def isdigit (b : Byte) : Bool := 48 ≤ b && b ≤ 57

def readDecimalNat (s : List Byte) : Option Nat :=
  match s.takeWhile isdigit with
  | [] => none
  | ds => some (ds.foldl (fun n d => 10 * n + (d.toNat - 48)) 0)

def readDecimal : List Byte → Option Int
  | 45 :: s => (readDecimalNat s).map fun n => -(n : Int)
  | s => (readDecimalNat s).map fun n => (n : Int)

theorem decimalNat_ne_nil (n : Nat) : decimalNat n ≠ [] := by
  unfold decimalNat
  split_ifs with h
  · simp
  · simp [Nat.digits_ne_nil_iff_ne_zero, h]

theorem decimal_ne_nil (i : Int) : decimal i ≠ [] := by
  cases i with
  | ofNat n => exact decimalNat_ne_nil n
  | negSucc n => simp [decimal]

def decimalFormat : NumberFormat Int := ⟨decimal, readDecimal, decimal_ne_nil⟩

inductive Variant (N : Type)
  | null
  | bool (b : Bool)
  | number (n : N)
  | string (s : List Byte)
  | array (l : List (Variant N))
  | object (m : List (List Byte × Variant N))

/-- The type of a `Variant`; true and false are types of their own. -/
inductive VariantType
  | nullType
  | boolType (b : Bool)
  | numberType
  | stringType
  | arrayType
  | objectType
  deriving DecidableEq

/-! ### `ParseBool` -/

def isspace (b : Byte) : Bool := b = 32 || 9 ≤ b && b ≤ 13

def tolower (b : Byte) : Byte := if 65 ≤ b ∧ b ≤ 90 then b + 32 else b

/-- What is left of the text after the part of it that agrees with `cmpstr`. -/
def skipAgreeing : List Byte → List Byte → List Byte
  | c :: cmpstr, b :: cur => if tolower b = c then skipAgreeing cmpstr cur else b :: cur
  | _, cur => cur

def onlySpace (cur : List Byte) : Bool := (cur.dropWhile isspace).isEmpty

def parseBool (str : List Byte) : Bool :=
  match str.dropWhile isspace with
  | [] => true
  | c :: cur =>
    if tolower c = 110 then !onlySpace (skipAgreeing (bytes "o") cur)
    else if tolower c = 102 then !onlySpace (skipAgreeing (bytes "alse") cur)
    else if c = 48 then !onlySpace (cur.dropWhile (· = 48))
    else true

namespace Variant

variable {N : Type}

@[simp] def getType : Variant N → VariantType
  | null => .nullType
  | bool b => .boolType b
  | number _ => .numberType
  | string _ => .stringType
  | array _ => .arrayType
  | object _ => .objectType

/-! ### Elements and members -/

/-- `AsArray`, which makes an array of null; `none` when the assertion fails. -/
def asArray : Variant N → Option (List (Variant N))
  | null => some []
  | array l => some l
  | _ => none

/-- `AsObject`, which makes an object of null; `none` when the assertion fails. -/
def asObject : Variant N → Option (List (List Byte × Variant N))
  | null => some []
  | object m => some m
  | _ => none

/-- The member of an object, null when it has none. -/
def member (k : List Byte) : Variant N → Variant N
  | object m => (Dictionary.find k m).getD null
  | _ => null

/-- `v[k] = x`, for a key that is not a numeral. -/
def setMember (v : Variant N) (k : List Byte) (x : Variant N) : Option (Variant N) :=
  v.asObject.map fun m => object (Dictionary.insert k x m)

/-- `At` of a value that must not change; for a key that is not a numeral. -/
def constMember (k : List Byte) : Variant N → Option (Variant N)
  | object m => some ((Dictionary.find k m).getD null)
  | _ => none

/-- What becomes of a value when `At` refers to a member of it: null becomes an object, and a missing member becomes
null.  The key is not a numeral, so that `At` fails on an array. -/
def touch (k : List Byte) (v : Variant N) : Option (Variant N) :=
  v.asObject.map fun m => object (if (Dictionary.find k m).isSome then m else Dictionary.insert k null m)

@[simp] theorem member_null {k : List Byte} : (null : Variant N).member k = null := rfl

theorem member_object {k : List Byte} {m : List (List Byte × Variant N)} :
    (object m).member k = (Dictionary.find k m).getD null := rfl

theorem member_of_asObject {v : Variant N} {m : List (List Byte × Variant N)} (h : v.asObject = some m) (k : List Byte) :
    v.member k = (object m).member k := by
  cases v with
  | null =>
    cases h
    rfl
  | object m' =>
    cases h
    rfl
  | bool | number | string | array => cases h

@[simp] theorem member_insert_self {k : List Byte} {x : Variant N} {m : List (List Byte × Variant N)} :
    (object (Dictionary.insert k x m)).member k = x := by
  rw [member_object, Dictionary.find_insert_self, Option.getD_some]

theorem member_insert_of_ne {k k' : List Byte} {x : Variant N} {m : List (List Byte × Variant N)} (h : k' ≠ k) :
    (object (Dictionary.insert k x m)).member k' = (object m).member k' := by
  rw [member_object, member_object, Dictionary.find_insert_of_ne h]

theorem exists_object_of_member_ne_null {k : List Byte} {v : Variant N} (h : v.member k ≠ null) :
    ∃ m, v = object m ∧ Dictionary.find k m = some (v.member k) := by
  cases v with
  | object m =>
    rw [member_object] at h ⊢
    cases hf : Dictionary.find k m with
    | none => rw [hf] at h; exact absurd rfl h
    | some x => exact ⟨m, rfl, by rw [hf, Option.getD_some]⟩
  | null | bool | number | string | array => exact absurd rfl h

theorem touch_of_member_ne_null {k : List Byte} {v : Variant N} (h : v.member k ≠ null) : v.touch k = some v := by
  obtain ⟨m, rfl, hf⟩ := exists_object_of_member_ne_null h
  rw [touch, asObject, Option.map_some, hf, Option.isSome_some, if_pos rfl]

theorem setMember_object {k : List Byte} {x : Variant N} {m : List (List Byte × Variant N)} :
    (object m).setMember k x = some (object (Dictionary.insert k x m)) := rfl

theorem setMember_null {k : List Byte} {x : Variant N} : null.setMember k x = some (object (Dictionary.insert k x [])) := rfl

theorem constMember_object {k : List Byte} {m : List (List Byte × Variant N)} :
    (object m).constMember k = some ((object m).member k) := rfl

/-! ### Conversions -/

/-- `AsString` of a value on which it was never called. -/
def asString (F : NumberFormat N) : Variant N → Option (List Byte)
  | null => some (bytes "null")
  | bool b => some (if b then bytes "true" else bytes "false")
  | number n => some (F.text n)
  | string s => some s
  | array _ | object _ => none

def asLongDouble [Zero N] [One N] (F : NumberFormat N) : Variant N → Option N
  | null => some 0
  | bool b => some (if b then 1 else 0)
  | number n => some n
  | string s => F.parse s
  | array _ | object _ => none

/-! ### Well-formed values -/

mutual
/-- The members of every object in the value are in the order of their keys. -/
def Proper : Variant N → Prop
  | array l => ProperElements l
  | object m => Dictionary.Sorted m ∧ ProperMembers m
  | _ => True

def ProperElements : List (Variant N) → Prop
  | [] => True
  | v :: l => v.Proper ∧ ProperElements l

def ProperMembers : List (List Byte × Variant N) → Prop
  | [] => True
  | (_, v) :: m => v.Proper ∧ ProperMembers m
end

theorem properElements_iff {l : List (Variant N)} : ProperElements l ↔ ∀ v ∈ l, v.Proper := by
  induction l with
  | nil => simp [ProperElements]
  | cons v l ih => rw [ProperElements, ih, List.forall_mem_cons]

theorem properMembers_iff {m : List (List Byte × Variant N)} : ProperMembers m ↔ ∀ e ∈ m, e.2.Proper := by
  induction m with
  | nil => simp [ProperMembers]
  | cons e m ih => rw [ProperMembers, ih, List.forall_mem_cons]

/-! ### `Copy` -/

mutual
/-- The members of an object are put one after the other into a new one. -/
def copy : Variant N → Variant N
  | array l => array (copyElements l)
  | object m => object (copyMembers [] m)
  | v => v

def copyElements : List (Variant N) → List (Variant N)
  | [] => []
  | v :: l => v.copy :: copyElements l

def copyMembers (ret : List (List Byte × Variant N)) : List (List Byte × Variant N) → List (List Byte × Variant N)
  | [] => ret
  | (k, v) :: m => copyMembers (Dictionary.insert k v.copy ret) m
end

theorem copy_ne_null {v : Variant N} (h : v ≠ null) : v.copy ≠ null := by
  cases v <;> simp_all [copy]

mutual
theorem copy_of_proper : ∀ v : Variant N, v.Proper → v.copy = v
  | null, _ | bool _, _ | number _, _ | string _, _ => by rw [copy] <;> simp
  | array l, h => by
    rw [Proper] at h
    rw [copy, copyElements_of_proper l h]
  | object m, h => by
    rw [Proper] at h
    rw [copy, copyMembers_of_proper m [] h.2 h.1, List.nil_append]

theorem copyElements_of_proper : ∀ l : List (Variant N), ProperElements l → copyElements l = l
  | [], _ => by rw [copyElements]
  | v :: l, h => by
    rw [ProperElements] at h
    rw [copyElements, copy_of_proper v h.1, copyElements_of_proper l h.2]

theorem copyMembers_of_proper : ∀ m ret : List (List Byte × Variant N), ProperMembers m → Dictionary.Sorted (ret ++ m) →
    copyMembers ret m = ret ++ m
  | [], ret, _, _ => by rw [copyMembers, List.append_nil]
  | (k, v) :: m, ret, h, hs => by
    rw [ProperMembers] at h
    have hlt : ∀ e ∈ ret, e.1 < k := by
      unfold Dictionary.Sorted at hs
      rw [List.map_append, List.pairwise_append] at hs
      exact fun e he => hs.2.2 e.1 (List.mem_map_of_mem he) k (by simp)
    rw [copyMembers, copy_of_proper v h.1, Dictionary.insert_of_forall_lt hlt,
      copyMembers_of_proper m _ h.2 (by simpa using hs),
      List.append_assoc, List.singleton_append]
end

end Variant

end ProcessNetwork
