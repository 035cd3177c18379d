import ProcessNetwork.Variant
import ProcessNetwork.Lib.Machine

/-!
# The cached string of a variant

The fields of a `Variant` and the operations that change it in place.  `stringval` is the value of a string, and for null,
true, false and a number it caches what `AsString` returned.  Copies of an array or an object share their elements, so
that a variant is a variable, an element of a shared vector or a member of a shared map.  An operation whose assertion
fails changes nothing.
-/

namespace ProcessNetwork.VariantCache

abbrev Key := List Byte

/-- How numbers are written and read; `readUnsigned` reads the index of an element. -/
structure StreamFormat (N : Type) extends NumberFormat N where
  readUnsigned : List Byte → Option Nat

structure Cell (N : Type) where
  type : VariantType
  numvalue : N
  stringval : List Byte
  array : Option Nat
  object : Option Nat
  deriving DecidableEq

/-- The variables, the vectors and the maps. -/
structure Store (N : Type) where
  vars : List (Cell N)
  arrays : List (List (Cell N))
  objects : List (List (Key × Cell N))

inductive Place
  | var (i : Nat)
  | element (a i : Nat)
  | member (o : Nat) (k : Key)
  deriving DecidableEq

/-- The argument of `At` and `operator[]`. -/
inductive Index
  | unsigned (i : Nat)
  | string (s : Key)
  deriving DecidableEq

variable {N : Type}

/-! ### One variant -/

namespace Cell

/-- `Variant()`; the number of a variant that is no number is never read. -/
def null [Zero N] : Cell N := ⟨.nullType, 0, [], none, none⟩

/-- `type = v.type; Assign(v)`. -/
def assign (c v : Cell N) : Cell N :=
  match v.type with
  | .nullType | .boolType _ => { c with type := v.type, stringval := [], array := none, object := none }
  | .numberType =>
    { c with type := v.type, numvalue := v.numvalue, stringval := [], array := none, object := none }
  | .stringType => { c with type := v.type, stringval := v.stringval, array := none, object := none }
  | .arrayType => { c with type := v.type, array := v.array, stringval := [], object := none }
  | .objectType => { c with type := v.type, object := v.object, stringval := [], array := none }

variable (F : NumberFormat N)

/-- What `AsString` returns, `none` when its assertion fails, and the variant with the text in its cache. -/
def asString (c : Cell N) : Option (List Byte) × Cell N :=
  if c.stringval ≠ [] then (some c.stringval, c)
  else
    match c.type with
    | .numberType => (some (F.text c.numvalue), { c with stringval := F.text c.numvalue })
    | .stringType => (some c.stringval, c)
    | .boolType true => (some (bytes "true"), { c with stringval := bytes "true" })
    | .boolType false => (some (bytes "false"), { c with stringval := bytes "false" })
    | .nullType => (some (bytes "null"), { c with stringval := bytes "null" })
    | .arrayType | .objectType => (none, c)

/-- What `AsString` is to return for the type and the value of the variant. -/
def text (c : Cell N) : Option (List Byte) :=
  match c.type with
  | .nullType => some (bytes "null")
  | .boolType true => some (bytes "true")
  | .boolType false => some (bytes "false")
  | .numberType => some (F.text c.numvalue)
  | .stringType => some c.stringval
  | .arrayType | .objectType => none

/-- A variant of the type and the value of this one on which `AsString` was never called. -/
def fresh (c : Cell N) : Cell N := { c with stringval := if c.type = .stringType then c.stringval else [] }

/-- What the cache holds is the text of the value. -/
def Cached (c : Cell N) : Prop := c.stringval = [] ∨ c.text F = some c.stringval

end Cell

/-! ### The store -/

namespace Store

def get (s : Store N) : Place → Option (Cell N)
  | .var i => s.vars[i]?
  | .element a i => (s.arrays[a]?).bind fun l => l[i]?
  | .member o k => (s.objects[o]?).bind fun m => Dictionary.find k m

def set (s : Store N) (p : Place) (c : Cell N) : Store N :=
  match p with
  | .var i => { s with vars := s.vars.set i c }
  | .element a i => { s with arrays := s.arrays.modify a fun l => l.set i c }
  | .member o k => { s with objects := s.objects.modify o fun m => m.map fun e => if e.1 = k then (k, c) else e }

/-- The variant at the place, an array when it was null: the first lines of `AsArray`, `ListBegin`, `Append` and `At`. -/
def toArray (s : Store N) (p : Place) (c : Cell N) : Store N × Cell N :=
  if c.type = .nullType then
    let c := { c with type := .arrayType, array := some s.arrays.length }
    ({ s with arrays := s.arrays ++ [[]] }.set p c, c)
  else (s, c)

/-- The variant at the place, an object when it was null: the first lines of `AsObject`, `MapBegin` and `At`. -/
def toObject (s : Store N) (p : Place) (c : Cell N) : Store N × Cell N :=
  if c.type = .nullType then
    let c := { c with type := .objectType, object := some s.objects.length }
    ({ s with objects := s.objects ++ [[]] }.set p c, c)
  else (s, c)

/-- The vector and the map that the variant points to. -/
def elements (s : Store N) (c : Cell N) : Option (Nat × List (Cell N)) :=
  if c.type = .arrayType then c.array.bind fun a => (s.arrays[a]?).map fun l => (a, l) else none

def members (s : Store N) (c : Cell N) : Option (Nat × List (Key × Cell N)) :=
  if c.type = .objectType then c.object.bind fun o => (s.objects[o]?).map fun m => (o, m) else none

end Store

/-! ### The operations -/

section

variable [Zero N] (F : StreamFormat N)

open Store

def new (s : Store N) (c : Cell N) : Store N := { s with vars := s.vars ++ [c] }

def create (s : Store N) (type : VariantType) : Store N :=
  let c : Cell N := { (Cell.null : Cell N) with type := type }
  match type with
  | .arrayType => new { s with arrays := s.arrays ++ [[]] } { c with array := some s.arrays.length }
  | .objectType => new { s with objects := s.objects ++ [[]] } { c with object := some s.objects.length }
  | _ => new s c

def createNumber (s : Store N) (n : N) : Store N := new s ⟨.numberType, n, [], none, none⟩

def createString (s : Store N) (v : List Byte) : Store N := new s ⟨.stringType, 0, v, none, none⟩

def createCopy (s : Store N) (q : Place) : Option (Store N) :=
  (s.get q).map fun v => new s (Cell.null.assign v)

def assign (s : Store N) (p q : Place) : Option (Store N) := do
  let c ← s.get p
  let v ← s.get q
  some (s.set p (c.assign v))

def swap (s : Store N) (p other : Place) : Option (Store N) := do
  let o ← s.get other
  let temp := Cell.null.assign o
  let c ← s.get p
  let s := s.set other (o.assign c)
  let c ← s.get p
  some (s.set p (c.assign temp))

def asString (s : Store N) (p : Place) : Option (Store N) :=
  (s.get p).map fun c => s.set p (c.asString F.toNumberFormat).2

def asArray (s : Store N) (p : Place) : Option (Store N) := (s.get p).map fun c => (s.toArray p c).1

def listBegin (s : Store N) (p : Place) : Option (Store N) := (s.get p).map fun c => (s.toArray p c).1

def listEnd (s : Store N) (p : Place) : Option (Store N) := (s.get p).map fun c => (s.toArray p c).1

def asObject (s : Store N) (p : Place) : Option (Store N) := (s.get p).map fun c => (s.toObject p c).1

def mapBegin (s : Store N) (p : Place) : Option (Store N) := (s.get p).map fun c => (s.toObject p c).1

def mapEnd (s : Store N) (p : Place) : Option (Store N) := (s.get p).map fun c => (s.toObject p c).1

def clear (s : Store N) (p : Place) : Option (Store N) :=
  (s.get p).map fun c =>
    match c.type with
    | .arrayType =>
      match c.array with
      | some a => { s with arrays := s.arrays.set a [] }
      | none => s
    | .objectType =>
      match c.object with
      | some o => { s with objects := s.objects.set o [] }
      | none => s
    | .stringType => s.set p { c with stringval := [] }
    | _ => s.set p { c with type := .nullType }

def append (s : Store N) (p value : Place) : Option (Store N) :=
  (s.get p).bind fun c =>
    let (s, c) := s.toArray p c
    (s.get value).map fun v =>
      match s.elements c with
      | some (a, l) => { s with arrays := s.arrays.set a (l ++ [Cell.null.assign v]) }
      | none => s

/-- `resize(i + 1)` when there are too few elements; the sum is an `unsigned`. -/
def resize (s : Store N) (a : Nat) (l : List (Cell N)) (i : Nat) : Store N :=
  if l.length ≤ i then
    let n := (i + 1) % 2 ^ 32
    { s with arrays := s.arrays.set a (l.take n ++ List.replicate (n - l.length) Cell.null) }
  else s

/-- `insert(make_pair(k, null))`. -/
def insertNull (s : Store N) (o : Nat) (m : List (Key × Cell N)) (k : Key) : Store N :=
  if (Dictionary.find k m).isSome then s
  else { s with objects := s.objects.set o (Dictionary.insert k Cell.null m) }

/-- What `At` does to an array or an object. -/
def index (s : Store N) (c : Cell N) (i : Option Nat) (k : Key) : Store N :=
  match s.elements c, s.members c, i with
  | some (a, l), _, some i => resize s a l i
  | _, some (o, m), _ => insertNull s o m k
  | _, _, _ => s

def atUnsigned (s : Store N) (p : Place) (i : Nat) : Option (Store N) :=
  (s.get p).map fun c =>
    let (s, c) := s.toArray p c
    index s c (some i) (decimalNat i)

def atString (s : Store N) (p : Place) (k : Key) : Option (Store N) :=
  (s.get p).map fun c =>
    let (s, c) := s.toObject p c
    index s c (F.readUnsigned k) k

end

inductive Op (N : Type)
  | create (type : VariantType)
  | createNumber (n : N)
  | createString (v : List Byte)
  | createCopy (q : Place)
  | assign (p q : Place)
  | swap (p other : Place)
  | asString (p : Place)
  | asArray (p : Place)
  | listBegin (p : Place)
  | listEnd (p : Place)
  | asObject (p : Place)
  | mapBegin (p : Place)
  | mapEnd (p : Place)
  | clear (p : Place)
  | append (p value : Place)
  | at (p : Place) (i : Index)

def next [Zero N] (F : StreamFormat N) (s : Store N) : Op N → Option (Store N)
  | .create type => some (create s type)
  | .createNumber n => some (createNumber s n)
  | .createString v => some (createString s v)
  | .createCopy q => createCopy s q
  | .assign p q => assign s p q
  | .swap p other => swap s p other
  | .asString p => asString F s p
  | .asArray p => asArray s p
  | .listBegin p => listBegin s p
  | .listEnd p => listEnd s p
  | .asObject p => asObject s p
  | .mapBegin p => mapBegin s p
  | .mapEnd p => mapEnd s p
  | .clear p => clear s p
  | .append p value => append s p value
  | .at p (.unsigned i) => atUnsigned s p i
  | .at p (.string k) => atString F s p k

def variants [Zero N] (F : StreamFormat N) : Machine (Store N) (Op N) where
  init s := s = ⟨[], [], []⟩
  next := next F

/-! ### What holds of all variants -/

namespace Store

structure All (P : Cell N → Prop) (s : Store N) : Prop where
  vars : ∀ c ∈ s.vars, P c
  arrays : ∀ l ∈ s.arrays, ∀ c ∈ l, P c
  objects : ∀ m ∈ s.objects, ∀ e ∈ m, P e.2

variable {P : Cell N → Prop} {s : Store N} {p : Place} {c : Cell N}

theorem All.get (h : s.All P) (hc : s.get p = some c) : P c := by
  cases p with
  | var i => exact h.vars c (List.mem_of_getElem? hc)
  | element a i =>
    obtain ⟨l, hl, hc⟩ := Option.bind_eq_some_iff.1 hc
    exact h.arrays l (List.mem_of_getElem? hl) c (List.mem_of_getElem? hc)
  | member o k =>
    obtain ⟨m, hm, hc⟩ := Option.bind_eq_some_iff.1 hc
    exact h.objects m (List.mem_of_getElem? hm) _ (Dictionary.mem_of_find hc)

theorem forall_mem_modify {α : Type} {Q : α → Prop} {l : List α} {f : α → α} (h : ∀ a ∈ l, Q a) (hf : ∀ a, Q a → Q (f a))
    (i : Nat) : ∀ a ∈ l.modify i f, Q a := by
  intro a ha
  obtain ⟨j, hj⟩ := List.mem_iff_getElem?.1 ha
  rw [List.getElem?_modify] at hj
  cases hl : l[j]? with
  | none => rw [hl] at hj; cases hj
  | some b =>
    rw [hl] at hj
    have hb := h b (List.mem_of_getElem? hl)
    split_ifs at hj
    · cases hj
      exact hf b hb
    · cases hj
      exact hb

private theorem All.set (h : s.All P) (hc : P c) : (s.set p c).All P := by
  cases p with
  | var i =>
    exact ⟨fun c' hc' => (List.mem_or_eq_of_mem_set hc').elim (h.vars c') fun heq => heq ▸ hc, h.arrays, h.objects⟩
  | element a i =>
    refine ⟨h.vars, forall_mem_modify h.arrays (fun l hl c' hc' => ?_) a, h.objects⟩
    exact (List.mem_or_eq_of_mem_set hc').elim (hl c') fun heq => heq ▸ hc
  | member o k =>
    refine ⟨h.vars, h.arrays, forall_mem_modify h.objects (fun m hm e he => ?_) o⟩
    obtain ⟨e', he', rfl⟩ := List.mem_map.1 he
    split_ifs
    · exact hc
    · exact hm e' he'

private theorem All.new (h : s.All P) (hc : P c) : (new s c).All P :=
  ⟨List.forall_mem_append.2 ⟨h.vars, List.forall_mem_singleton.2 hc⟩, h.arrays, h.objects⟩

private theorem All.newArray (h : s.All P) : ({ s with arrays := s.arrays ++ [[]] } : Store N).All P :=
  ⟨h.vars, List.forall_mem_append.2 ⟨h.arrays, List.forall_mem_singleton.2 fun _ hc => absurd hc List.not_mem_nil⟩,
    h.objects⟩

private theorem All.newObject (h : s.All P) : ({ s with objects := s.objects ++ [[]] } : Store N).All P :=
  ⟨h.vars, h.arrays,
    List.forall_mem_append.2 ⟨h.objects, List.forall_mem_singleton.2 fun _ hc => absurd hc List.not_mem_nil⟩⟩

private theorem All.setArray {a : Nat} {l : List (Cell N)} (h : s.All P) (hl : ∀ c ∈ l, P c) :
    ({ s with arrays := s.arrays.set a l } : Store N).All P :=
  ⟨h.vars, fun l' hl' => (List.mem_or_eq_of_mem_set hl').elim (h.arrays l') fun heq => heq ▸ hl, h.objects⟩

private theorem All.setObject {o : Nat} {m : List (Key × Cell N)} (h : s.All P) (hm : ∀ e ∈ m, P e.2) :
    ({ s with objects := s.objects.set o m } : Store N).All P :=
  ⟨h.vars, h.arrays, fun m' hm' => (List.mem_or_eq_of_mem_set hm').elim (h.objects m') fun heq => heq ▸ hm⟩

theorem All.elements {a : Nat} {l : List (Cell N)} (h : s.All P) (hc : s.elements c = some (a, l)) : ∀ c ∈ l, P c := by
  unfold Store.elements at hc
  split_ifs at hc
  obtain ⟨a', -, hc⟩ := Option.bind_eq_some_iff.1 hc
  obtain ⟨l', hl', heq⟩ := Option.map_eq_some_iff.1 hc
  cases heq
  exact h.arrays l (List.mem_of_getElem? hl')

theorem All.members {o : Nat} {m : List (Key × Cell N)} (h : s.All P) (hc : s.members c = some (o, m)) :
    ∀ e ∈ m, P e.2 := by
  unfold Store.members at hc
  split_ifs at hc
  obtain ⟨o', -, hc⟩ := Option.bind_eq_some_iff.1 hc
  obtain ⟨m', hm', heq⟩ := Option.map_eq_some_iff.1 hc
  cases heq
  exact h.objects m (List.mem_of_getElem? hm')

end Store

/-! ### What every step keeps -/

/-- Null, true, false and numbers, of which `AsString` caches the text. -/
def isScalar : VariantType → Bool
  | .nullType | .boolType _ | .numberType => true
  | _ => false

/-- A property that new variants have and that the operations on one variant keep. -/
structure Closed [Zero N] (F : NumberFormat N) (P : Cell N → Prop) : Prop where
  create : ∀ type array object, P ⟨type, 0, [], array, object⟩
  string : ∀ v, P ⟨.stringType, 0, v, none, none⟩
  assign : ∀ c v, P v → P (Cell.assign c v)
  asString : ∀ c, P c → P (c.asString F).2
  clearString : ∀ c, P c → c.type = .stringType → P { c with stringval := [] }

/-- A new number has the property, and a variant that changes its type keeps it. -/
def Keeps [Zero N] (P : Cell N → Prop) (s : Store N) : Op N → Prop
  | .createNumber n => P ⟨.numberType, n, [], none, none⟩
  | .asArray p | .listBegin p | .listEnd p | .append p _ | .at p (.unsigned _) =>
    ∀ c ∈ s.get p, c.type = .nullType → ∀ a, P { c with type := .arrayType, array := some a }
  | .asObject p | .mapBegin p | .mapEnd p | .at p (.string _) =>
    ∀ c ∈ s.get p, c.type = .nullType → ∀ o, P { c with type := .objectType, object := some o }
  | .clear p => ∀ c ∈ s.get p, isScalar c.type = true → P { c with type := .nullType }
  | _ => True

section

variable {P : Cell N → Prop} {s t : Store N} {p : Place} {c : Cell N}

namespace Store

private theorem All.toArray (h : s.All P)
    (hP : c.type = .nullType → ∀ a, P { c with type := .arrayType, array := some a }) : (s.toArray p c).1.All P := by
  unfold Store.toArray
  split_ifs with ht
  · exact h.newArray.set (hP ht _)
  · exact h

private theorem All.toObject (h : s.All P)
    (hP : c.type = .nullType → ∀ o, P { c with type := .objectType, object := some o }) : (s.toObject p c).1.All P := by
  unfold Store.toObject
  split_ifs with ht
  · exact h.newObject.set (hP ht _)
  · exact h

private theorem All.clear (h : s.All P) (hstring : ∀ c, P c → c.type = .stringType → P { c with stringval := [] })
    (hP : ∀ c ∈ s.get p, isScalar c.type = true → P { c with type := .nullType }) (ht : clear s p = some t) : t.All P := by
  obtain ⟨c, hc, rfl⟩ := Option.map_eq_some_iff.1 ht
  have hnil : ∀ c ∈ ([] : List (Cell N)), P c := fun _ hc => absurd hc List.not_mem_nil
  cases hty : c.type with
  | arrayType =>
    dsimp only
    split
    · exact h.setArray hnil
    · exact h
  | objectType =>
    dsimp only
    split
    · exact h.setObject fun _ he => absurd he List.not_mem_nil
    · exact h
  | stringType =>
    have hcleared := hstring c (h.get hc) hty
    rw [hty] at hcleared
    exact h.set hcleared
  | nullType | boolType | numberType => exact h.set (hP c hc (by rw [hty]; rfl))

variable [Zero N]

private theorem All.append {value : Place} (h : s.All P) (hassign : ∀ c v, P v → P (Cell.assign c v))
    (hP : ∀ c ∈ s.get p, c.type = .nullType → ∀ a, P { c with type := .arrayType, array := some a })
    (ht : append s p value = some t) : t.All P := by
  obtain ⟨c, hc, ht⟩ := Option.bind_eq_some_iff.1 ht
  have harr : (s.toArray p c).1.All P := h.toArray (hP c hc)
  obtain ⟨v, hv, rfl⟩ := Option.map_eq_some_iff.1 ht
  split
  · next a l hl =>
    have hlast : ∀ c ∈ [Cell.null.assign v], P c := List.forall_mem_singleton.2 (hassign _ _ (harr.get hv))
    exact harr.setArray (List.forall_mem_append.2 ⟨harr.elements hl, hlast⟩)
  · exact harr

private theorem All.index {k : Key} (h : s.All P) (hnull : P Cell.null) (i : Option Nat) : (index s c i k).All P := by
  unfold VariantCache.index
  split
  · next _ _ _ a l i hl =>
    unfold resize
    split_ifs
    · refine h.setArray (List.forall_mem_append.2 ⟨fun c hc => h.elements hl c (List.mem_of_mem_take hc), fun c hc => ?_⟩)
      rw [List.eq_of_mem_replicate hc]
      exact hnull
    · exact h
  · next o m _ _ hm _ =>
    unfold insertNull
    split_ifs
    · exact h
    · refine h.setObject fun e he => ?_
      rcases Dictionary.mem_insert he with rfl | he
      · exact hnull
      · exact h.members hm e he
  · exact h

theorem All.next {F : StreamFormat N} {op : Op N} (h : s.All P) (hP : Closed F.toNumberFormat P) (hk : Keeps P s op)
    (ht : next F s op = some t) : t.All P := by
  have hnull : P Cell.null := hP.create _ _ _
  cases op with
  | create type =>
    cases ht
    cases type with
    | arrayType => exact h.newArray.new (hP.create _ _ _)
    | objectType => exact h.newObject.new (hP.create _ _ _)
    | nullType | boolType | numberType | stringType => exact h.new (hP.create _ _ _)
  | createNumber n =>
    cases ht
    exact h.new hk
  | createString v =>
    cases ht
    exact h.new (hP.string v)
  | createCopy q =>
    obtain ⟨v, hv, rfl⟩ := Option.map_eq_some_iff.1 ht
    exact h.new (hP.assign _ _ (h.get hv))
  | assign p q =>
    obtain ⟨c, -, ht⟩ := Option.bind_eq_some_iff.1 ht
    obtain ⟨v, hv, ht⟩ := Option.bind_eq_some_iff.1 ht
    cases ht
    exact h.set (hP.assign _ _ (h.get hv))
  | swap p other =>
    obtain ⟨o, ho, ht⟩ := Option.bind_eq_some_iff.1 ht
    obtain ⟨c, hc, ht⟩ := Option.bind_eq_some_iff.1 ht
    obtain ⟨c', -, ht⟩ := Option.bind_eq_some_iff.1 ht
    cases ht
    -- `Swap` copies through a temporary variant
    have htemp : P (Cell.null.assign o) := hP.assign _ _ (h.get ho)
    exact (h.set (hP.assign _ _ (h.get hc))).set (hP.assign _ _ htemp)
  | asString p =>
    obtain ⟨c, hc, rfl⟩ := Option.map_eq_some_iff.1 ht
    exact h.set (hP.asString c (h.get hc))
  | asArray p | listBegin p | listEnd p =>
    obtain ⟨c, hc, rfl⟩ := Option.map_eq_some_iff.1 ht
    exact h.toArray (hk c hc)
  | asObject p | mapBegin p | mapEnd p =>
    obtain ⟨c, hc, rfl⟩ := Option.map_eq_some_iff.1 ht
    exact h.toObject (hk c hc)
  | clear p => exact h.clear hP.clearString hk ht
  | append p value => exact h.append hP.assign hk ht
  | «at» p i =>
    cases i with
    | unsigned i =>
      obtain ⟨c, hc, rfl⟩ := Option.map_eq_some_iff.1 ht
      exact (h.toArray (hk c hc)).index hnull _
    | string k =>
      obtain ⟨c, hc, rfl⟩ := Option.map_eq_some_iff.1 ht
      exact (h.toObject (hk c hc)).index hnull _

end Store

end

/-! ### The cache -/

section

variable {F : NumberFormat N} {c v : Cell N} {s : Store N} {p : Place}

private theorem Cell.cached_assign : (c.assign v).Cached F := by
  unfold Cell.assign
  cases v.type with
  | stringType => exact .inr rfl
  | nullType | boolType | numberType | arrayType | objectType => exact .inl rfl

/-- What `AsString` returns for a variant whose cache is right. -/
theorem Cell.Cached.asString_eq (h : c.Cached F) : (c.asString F).1 = c.text F := by
  unfold Cell.asString
  split_ifs with hs
  · exact (h.resolve_left hs).symm
  · unfold Cell.text
    cases c.type with
    | boolType b => cases b <;> rfl
    | nullType | numberType | stringType | arrayType | objectType => rfl

private theorem Cell.Cached.asString (h : c.Cached F) : (c.asString F).2.Cached F := by
  unfold Cell.asString
  split_ifs with hs
  · exact h
  · cases ht : c.type with
    | boolType b => cases b <;> exact .inr (by simp only [Cell.text])
    | nullType | numberType => exact .inr (by simp only [Cell.text])
    | stringType | arrayType | objectType => exact h

private theorem Cell.asString_fresh : (c.fresh.asString F).1 = c.text F := by
  have hcached : c.fresh.Cached F := by
    unfold Cell.fresh
    split_ifs with ht
    · exact .inr (by simp only [Cell.text, ht])
    · exact .inl rfl
  rw [hcached.asString_eq]
  unfold Cell.fresh Cell.text
  cases ht : c.type with
  | stringType => simp
  | boolType b => cases b <;> rfl
  | nullType | numberType | arrayType | objectType => rfl

/-! ### When the cache stays right -/

def isNull (t : VariantType) : Bool := t = .nullType

def isBoolOrNumber : VariantType → Bool
  | .boolType _ | .numberType => true
  | _ => false

/-- The variant at the place holds no text if it is of one of the types. -/
def Untexted (s : Store N) (p : Place) (types : VariantType → Bool) : Prop :=
  ∀ c ∈ s.get p, types c.type = true → c.stringval = []

instance (types : VariantType → Bool) : Decidable (Untexted s p types) :=
  inferInstanceAs (Decidable (∀ c ∈ s.get p, types c.type = true → c.stringval = []))

/-- No null whose text is in its cache becomes an array or an object, and no boolean or number whose text is in its cache
is cleared. -/
def Careful (s : Store N) : Op N → Prop
  | .asArray p | .listBegin p | .listEnd p | .asObject p | .mapBegin p | .mapEnd p | .append p _ | .at p _ =>
    Untexted s p isNull
  | .clear p => Untexted s p isBoolOrNumber
  | _ => True

instance (s : Store N) : ∀ op : Op N, Decidable (Careful s op)
  | .asArray p | .listBegin p | .listEnd p | .asObject p | .mapBegin p | .mapEnd p | .append p _ | .at p _ =>
    inferInstanceAs (Decidable (Untexted s p isNull))
  | .clear p => inferInstanceAs (Decidable (Untexted s p isBoolOrNumber))
  | .create _ | .createNumber _ | .createString _ | .createCopy _ | .assign _ _ | .swap _ _ | .asString _ => isTrue trivial

/-- No variant whose cache is wrong comes from a careful step. -/
theorem keeps_cached [Zero N] {op : Op N} (h : s.All (Cell.Cached F)) (hs : Careful s op) : Keeps (Cell.Cached F) s op := by
  have harray {p : Place} (hs : Untexted s p isNull) (c : Cell N) (hc : c ∈ s.get p) (ht : c.type = .nullType) (a : Nat) :
      Cell.Cached F { c with type := .arrayType, array := some a } := .inl (hs c hc (by simp [isNull, ht]))
  have hobject {p : Place} (hs : Untexted s p isNull) (c : Cell N) (hc : c ∈ s.get p) (ht : c.type = .nullType) (o : Nat) :
      Cell.Cached F { c with type := .objectType, object := some o } := .inl (hs c hc (by simp [isNull, ht]))
  cases op with
  | createNumber n => exact .inl rfl
  | asArray p | listBegin p | listEnd p | append p v => exact harray hs
  | asObject p | mapBegin p | mapEnd p => exact hobject hs
  | «at» p i =>
    cases i with
    | unsigned i => exact harray hs
    | string k => exact hobject hs
  | clear p =>
    intro c hc ht
    cases hty : c.type with
    | nullType => exact hty ▸ h.get hc
    | boolType b => exact .inl (hs c hc (by rw [hty]; rfl))
    | numberType => exact .inl (hs c hc (by rw [hty]; rfl))
    | stringType | arrayType | objectType =>
      rw [hty] at ht
      cases ht
  | create | createString | createCopy | assign | swap | asString => exact trivial

private theorem closed_cached [Zero N] : Closed F (Cell.Cached F) where
  create _ _ _ := .inl rfl
  string _ := .inr rfl
  assign _ _ _ := Cell.cached_assign
  asString _ h := h.asString
  clearString _ _ _ := .inl rfl

end

/-- Along careful steps `AsString` returns for every variant what it returns for a fresh one of the same type and
value. -/
theorem asString_never_stale [Zero N] (F : StreamFormat N) (s : Store N) (h : (variants F).ReachableBy Careful s) (p : Place)
    (c : Cell N) (hc : s.get p = some c) :
    (c.asString F.toNumberFormat).1 = c.text F.toNumberFormat ∧
      (c.asString F.toNumberFormat).1 = (c.fresh.asString F.toNumberFormat).1 := by
  have hall : s.All (Cell.Cached F.toNumberFormat) := by
    refine h.invariant (fun s hs => ?_) fun s op t hs hok ht => hs.next closed_cached (keeps_cached hs hok) ht
    rw [show s = ⟨[], [], []⟩ from hs]
    exact ⟨fun _ hc => absurd hc List.not_mem_nil, fun _ hl => absurd hl List.not_mem_nil,
      fun _ hm => absurd hm List.not_mem_nil⟩
  have heq := (hall.get hc).asString_eq
  exact ⟨heq, heq.trans Cell.asString_fresh.symm⟩

def decimalStream : StreamFormat Int := { decimalFormat with readUnsigned := readDecimalNat }

/-- A null whose text was asked for becomes a number, and that number an element of an array. -/
theorem asString_never_stale_element :
    ∃ c : Cell Int, (c.asString decimalStream.toNumberFormat).1 = some (bytes "7") ∧
      (c.asString decimalStream.toNumberFormat).1 = c.text decimalStream.toNumberFormat ∧
      (c.asString decimalStream.toNumberFormat).1 = (c.fresh.asString decimalStream.toNumberFormat).1 := by
  have hrun : (((variants decimalStream).runBy Careful ⟨[], [], []⟩
      [.create .nullType, .asString (.var 0), .createNumber 7, .assign (.var 0) (.var 1), .asString (.var 0),
        .create .nullType, .append (.var 2) (.var 0), .at (.var 2) (.unsigned 2), .asString (.element 0 0)]).any
      fun s => decide ((s.get (.element 0 0)).map (fun c => (c.asString decimalStream.toNumberFormat).1) =
        some (some (bytes "7")))) = true := by decide +kernel
  obtain ⟨s, hs, hp⟩ := Machine.exists_reachableBy (M := variants decimalStream) rfl hrun
  obtain ⟨c, hc, heq⟩ := Option.map_eq_some_iff.1 (of_decide_eq_true hp)
  exact ⟨c, heq, asString_never_stale decimalStream s hs _ c hc⟩

/-- A null whose text was asked for becomes an array. -/
theorem not_forall_asString_never_stale :
    ¬ ∀ s : Store Int, (variants decimalStream).Reachable s → ∀ p c, s.get p = some c →
      (c.asString decimalStream.toNumberFormat).1 = (c.fresh.asString decimalStream.toNumberFormat).1 := by
  intro h
  have hrun : (((variants decimalStream).runBy (fun _ _ => True) ⟨[], [], []⟩
      [.create .nullType, .asString (.var 0), .asArray (.var 0)]).any
      fun s => decide ((s.get (.var 0)).map (fun c =>
        ((c.asString decimalStream.toNumberFormat).1, (c.fresh.asString decimalStream.toNumberFormat).1)) =
          some (some (bytes "null"), none))) = true := by decide +kernel
  obtain ⟨s, hs, hp⟩ := Machine.exists_reachableBy (M := variants decimalStream) rfl hrun
  obtain ⟨c, hc, heq⟩ := Option.map_eq_some_iff.1 (of_decide_eq_true hp)
  have := h s hs _ c hc
  rw [(Prod.mk.inj heq).1, (Prod.mk.inj heq).2] at this
  cases this

end ProcessNetwork.VariantCache
