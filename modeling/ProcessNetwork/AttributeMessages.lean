import ProcessNetwork.Variant

/-!
# Attributes in messages

The attributes of a node and of a queue, as `RemoteContextClient.cc` puts them into a message for another kernel and as
that kernel takes them out again.  A number of a message is an integer or a `double`; the type of the `double`s, their
conversions and the texts of the numbers are arbitrary.
-/

namespace ProcessNetwork.AttributeMessages

open Variant

abbrev Key := List Byte

inductive Number (D : Type)
  | integer (i : Int)
  | double (d : D)

instance {D : Type} : Zero (Number D) := ⟨.integer 0⟩

instance {D : Type} : One (Number D) := ⟨.integer 1⟩

structure Numbers (D : Type) extends NumberFormat (Number D) where
  truncate : D → Int
  ofInteger : Int → D

/-! ### The attributes -/

inductive QueueHint
  | default
  | threshold
  deriving DecidableEq

@[ext] structure NodeAttr where
  kernelname : List Byte
  kernelkey : UInt64
  name : List Byte
  nodetype : List Byte
  params : List (Key × List Byte)
  key : UInt64
  sorted : Dictionary.Sorted params

namespace NodeAttr

def create (name nodetype : List Byte) : NodeAttr := ⟨[], 0, name, nodetype, [], 0, Dictionary.sorted_nil⟩

def setKernel (attr : NodeAttr) (kname : List Byte) : NodeAttr := { attr with kernelname := kname }

def setKey (attr : NodeAttr) (key : UInt64) : NodeAttr := { attr with key := key }

def setParam (attr : NodeAttr) (key : Key) (value : List Byte) : NodeAttr :=
  { attr with params := Dictionary.insert key value attr.params, sorted := Dictionary.sorted_insert attr.sorted }

end NodeAttr

structure SimpleQueueAttr (D : Type) where
  queuehint : QueueHint
  datatype : List Byte
  queueLength : UInt32
  maxThreshold : UInt32
  numChannels : UInt32
  alpha : D
  readerkey : UInt64
  writerkey : UInt64
  readernodekey : UInt64
  writernodekey : UInt64
  maxwritethreshold : UInt32

/-! ### Numbers in a message -/

variable {D : Type}

def ofKey (k : UInt64) : Variant (Number D) := number (.integer k.toNat)

def ofUnsigned (k : UInt32) : Variant (Number D) := number (.integer k.toNat)

def ofHint : QueueHint → Variant (Number D)
  | .default => number (.integer 0)
  | .threshold => number (.integer 1)

variable (F : Numbers D)

/-- The integer that a cast of the number gives. -/
def Number.toInteger : Number D → Int
  | integer i => i
  | double d => F.truncate d

def asKey (v : Variant (Number D)) : Option UInt64 :=
  (v.asLongDouble F.toNumberFormat).map fun n => UInt64.ofInt (n.toInteger F)

def asUnsigned (v : Variant (Number D)) : Option UInt32 :=
  (v.asLongDouble F.toNumberFormat).map fun n => UInt32.ofInt (n.toInteger F)

def asHint (v : Variant (Number D)) : Option QueueHint :=
  (v.asLongDouble F.toNumberFormat).map fun n => if n.toInteger F = 0 then .default else .threshold

def asDouble (v : Variant (Number D)) : Option D :=
  (v.asLongDouble F.toNumberFormat).map fun n =>
    match n with
    | .integer i => F.ofInteger i
    | .double d => d

/-! ### The messages -/

/-- The loop over the parameters: `nodeattr["param"][key] = value`. -/
def putParams (nodeattr : Variant (Number D)) : List (Key × List Byte) → Option (Variant (Number D))
  | [] => some nodeattr
  | (key, value) :: params => do
    let param ← (nodeattr.member (bytes "param")).setMember key (string value)
    let nodeattr ← nodeattr.setMember (bytes "param") param
    putParams nodeattr params

def sendCreateNode (kernelkey : UInt64) (attr : NodeAttr) : Option (Variant (Number D)) := do
  let msg ← (object []).setMember (bytes "msgtype") (string (bytes "kernel"))
  let msg ← msg.setMember (bytes "type") (number (.integer 7))
  let msg ← msg.setMember (bytes "kernelkey") (ofKey kernelkey)
  let nodeattr ← null.setMember (bytes "kernelkey") (ofKey kernelkey)
  let nodeattr ← nodeattr.setMember (bytes "kernel") (string attr.kernelname)
  let nodeattr ← nodeattr.setMember (bytes "name") (string attr.name)
  let nodeattr ← nodeattr.setMember (bytes "nodetype") (string attr.nodetype)
  let nodeattr ← putParams nodeattr attr.params
  let nodeattr ← nodeattr.setMember (bytes "key") (ofKey attr.key)
  msg.setMember (bytes "nodeattr") nodeattr

/-- The loop over the members of `msg["param"]`. -/
def takeParams (attr : NodeAttr) : List (Key × Variant (Number D)) → Option NodeAttr
  | [] => some attr
  | (key, value) :: params => do
    let value ← value.asString F.toNumberFormat
    takeParams (attr.setParam key value) params

def msgToNodeAttr (msg : Variant (Number D)) : Option NodeAttr := do
  let name ← (← msg.constMember (bytes "name")).asString F.toNumberFormat
  let nodetype ← (← msg.constMember (bytes "nodetype")).asString F.toNumberFormat
  let kernel ← (← msg.constMember (bytes "kernel")).asString F.toNumberFormat
  let key ← asKey F (← msg.constMember (bytes "key"))
  let attr := ((NodeAttr.create name nodetype).setKernel kernel).setKey key
  match ← msg.constMember (bytes "param") with
  | object param => takeParams F attr param
  | _ => some attr

/-- `msgtype` is the number of the command. -/
def sendQueueMsg (kernelkey : UInt64) (msgtype : Int) (attr : SimpleQueueAttr D) : Option (Variant (Number D)) := do
  let msg ← (object []).setMember (bytes "msgtype") (string (bytes "kernel"))
  let msg ← msg.setMember (bytes "type") (number (.integer msgtype))
  let msg ← msg.setMember (bytes "kernelkey") (ofKey kernelkey)
  let queueattr ← null.setMember (bytes "queuehint") (ofHint attr.queuehint)
  let queueattr ← queueattr.setMember (bytes "datatype") (string attr.datatype)
  let queueattr ← queueattr.setMember (bytes "queueLength") (ofUnsigned attr.queueLength)
  let queueattr ← queueattr.setMember (bytes "maxThreshold") (ofUnsigned attr.maxThreshold)
  let queueattr ← queueattr.setMember (bytes "numChannels") (ofUnsigned attr.numChannels)
  let queueattr ← queueattr.setMember (bytes "readerkey") (ofKey attr.readerkey)
  let queueattr ← queueattr.setMember (bytes "writerkey") (ofKey attr.writerkey)
  let queueattr ← queueattr.setMember (bytes "readernodekey") (ofKey attr.readernodekey)
  let queueattr ← queueattr.setMember (bytes "writernodekey") (ofKey attr.writernodekey)
  let queueattr ← queueattr.setMember (bytes "alpha") (number (.double attr.alpha))
  let queueattr ← queueattr.setMember (bytes "maxwritethreshold") (ofUnsigned attr.maxwritethreshold)
  msg.setMember (bytes "queueattr") queueattr

def msgToQueueAttr (msg : Variant (Number D)) : Option (SimpleQueueAttr D) := do
  let queuehint ← asHint F (← msg.constMember (bytes "queuehint"))
  let datatype ← (← msg.constMember (bytes "datatype")).asString F.toNumberFormat
  let queueLength ← asUnsigned F (← msg.constMember (bytes "queueLength"))
  let maxThreshold ← asUnsigned F (← msg.constMember (bytes "maxThreshold"))
  let numChannels ← asUnsigned F (← msg.constMember (bytes "numChannels"))
  let readerkey ← asKey F (← msg.constMember (bytes "readerkey"))
  let writerkey ← asKey F (← msg.constMember (bytes "writerkey"))
  let readernodekey ← asKey F (← msg.constMember (bytes "readernodekey"))
  let writernodekey ← asKey F (← msg.constMember (bytes "writernodekey"))
  let alpha ← asDouble F (← msg.constMember (bytes "alpha"))
  let maxwritethreshold ← asUnsigned F (← msg.constMember (bytes "maxwritethreshold"))
  some ⟨queuehint, datatype, queueLength, maxThreshold, numChannels, alpha, readerkey, writerkey, readernodekey,
    writernodekey, maxwritethreshold⟩

/-! ### There and back -/

variable {F}

private theorem asKey_ofKey (k : UInt64) : asKey F (ofKey k) = some k := by
  have hmod : (k.toNat : Int) % 2 ^ 64 = k.toNat := Int.emod_eq_of_lt (by omega) (by exact_mod_cast k.toNat_lt)
  rw [asKey, ofKey, asLongDouble, Option.map_some, Number.toInteger, UInt64.ofInt, hmod, Int.toNat_natCast,
    UInt64.ofNat_toNat]

private theorem asUnsigned_ofUnsigned (k : UInt32) : asUnsigned F (ofUnsigned k) = some k := by
  have hmod : (k.toNat : Int) % 2 ^ 32 = k.toNat := Int.emod_eq_of_lt (by omega) (by exact_mod_cast k.toNat_lt)
  rw [asUnsigned, ofUnsigned, asLongDouble, Option.map_some, Number.toInteger, UInt32.ofInt, hmod, Int.toNat_natCast,
    UInt32.ofNat_toNat]

private theorem asHint_ofHint (h : QueueHint) : asHint F (ofHint h) = some h := by
  cases h <;> simp [asHint, ofHint, asLongDouble, Number.toInteger]

theorem asDouble_double (d : D) : asDouble F (number (.double d)) = some d := rfl

/-- The parameters are in the member `"param"`, null when there are none, and the other members are as they were. -/
theorem putParams_eq (params : List (Key × List Byte)) (m ps : List (Key × Variant (Number D)))
    (h : ((object m).member (bytes "param")).asObject = some ps) :
    ∃ m', putParams (object m) params = some (object m') ∧
      ((object m').member (bytes "param")).asObject =
        some (params.foldl (fun ps e => Dictionary.insert e.1 (string e.2) ps) ps) ∧
      ∀ k ≠ bytes "param", (object m').member k = (object m).member k := by
  induction params generalizing m ps with
  | nil => exact ⟨m, rfl, h, fun _ _ => rfl⟩
  | cons e params ih =>
    obtain ⟨key, value⟩ := e
    obtain ⟨m', hput, hparam, hmember⟩ := ih (Dictionary.insert (bytes "param")
      (object (Dictionary.insert key (string value) ps)) m) (Dictionary.insert key (string value) ps)
      (by rw [member_insert_self]; rfl)
    refine ⟨m', ?_, hparam, fun k hk => (hmember k hk).trans (member_insert_of_ne hk)⟩
    rw [putParams, setMember, h]
    exact hput

private theorem takeParams_strings {attr : NodeAttr} {params : List (Key × List Byte)} :
    takeParams F attr (params.map fun e => (e.1, string e.2)) =
      some (params.foldl (fun attr e => attr.setParam e.1 e.2) attr) := by
  induction params generalizing attr with
  | nil => rfl
  | cons e params ih => exact ih

private theorem foldl_setParam (attr : NodeAttr) (params : List (Key × List Byte)) :
    ∃ h, params.foldl (fun attr e => attr.setParam e.1 e.2) attr =
      { attr with params := params.foldl (fun m e => Dictionary.insert e.1 e.2 m) attr.params, sorted := h } := by
  induction params generalizing attr with
  | nil => exact ⟨attr.sorted, rfl⟩
  | cons e params ih => exact ih (attr.setParam e.1 e.2)

/-- What `sendCreateNode` puts into the message. -/
structure Describes (nodeattr : List (Key × Variant (Number D))) (kernelkey : UInt64) (attr : NodeAttr) : Prop where
  kernelkey : (object nodeattr).member (bytes "kernelkey") = ofKey kernelkey
  kernel : (object nodeattr).member (bytes "kernel") = string attr.kernelname
  name : (object nodeattr).member (bytes "name") = string attr.name
  nodetype : (object nodeattr).member (bytes "nodetype") = string attr.nodetype
  param : ((object nodeattr).member (bytes "param")).asObject = some (attr.params.map fun e => (e.1, string e.2))
  key : (object nodeattr).member (bytes "key") = ofKey attr.key

private theorem exists_sendCreateNode (kernelkey : UInt64) (attr : NodeAttr) :
    ∃ msg nodeattr, sendCreateNode (D := D) kernelkey attr = some msg ∧
      msg.member (bytes "nodeattr") = object nodeattr ∧ Describes nodeattr kernelkey attr := by
  obtain ⟨m', hput, hparam, hmember⟩ := putParams_eq (D := D) attr.params
    (Dictionary.insert (bytes "nodetype") (string attr.nodetype) (Dictionary.insert (bytes "name") (string attr.name)
      (Dictionary.insert (bytes "kernel") (string attr.kernelname)
        (Dictionary.insert (bytes "kernelkey") (ofKey kernelkey) [])))) [] rfl
  have hps := Dictionary.foldl_insert (string (N := Number D)) (l := attr.params) (m := [])
    ((Dictionary.sorted_map string).2 attr.sorted)
  rw [hps, List.nil_append] at hparam
  have hsend : sendCreateNode kernelkey attr = some (object (Dictionary.insert (bytes "nodeattr")
      (object (Dictionary.insert (bytes "key") (ofKey attr.key) m'))
      (Dictionary.insert (bytes "kernelkey") (ofKey kernelkey) (Dictionary.insert (bytes "type") (number (.integer 7))
        (Dictionary.insert (bytes "msgtype") (string (bytes "kernel")) []))))) := by
    rw [sendCreateNode]
    simp only [setMember_null, setMember_object, Option.bind_eq_bind, Option.bind_some, hput]
  refine ⟨_, _, hsend, member_insert_self, ?_⟩
  have hmember' {k : Key} (hk : k ≠ bytes "key") (hp : k ≠ bytes "param") :=
    (member_insert_of_ne (x := ofKey attr.key) (m := m') hk).trans (hmember k hp)
  exact
    { kernelkey := hmember' (by decide) (by decide)
      kernel := hmember' (by decide) (by decide)
      name := hmember' (by decide) (by decide)
      nodetype := hmember' (by decide) (by decide)
      param := by rw [member_insert_of_ne (by decide), hparam]
      key := member_insert_self }

/-- The node gets everything but the key of its kernel. -/
theorem Describes.msgToNodeAttr {nodeattr : List (Key × Variant (Number D))} {kernelkey : UInt64} {attr : NodeAttr}
    (h : Describes nodeattr kernelkey attr) : msgToNodeAttr F (object nodeattr) = some { attr with kernelkey := 0 } := by
  have htake (v : Variant (Number D)) (a : NodeAttr) (ps : List (Key × Variant (Number D))) : v.asObject = some ps →
      (match v with
        | object param => takeParams F a param
        | _ => some a) = takeParams F a ps := by
    intro hv
    cases v with
    | null =>
      cases hv
      rfl
    | object m =>
      cases hv
      rfl
    | bool | number | string | array => cases hv
  unfold AttributeMessages.msgToNodeAttr
  simp only [constMember_object, h.name, h.nodetype, h.kernel, h.key, asKey_ofKey, asString, Option.bind_eq_bind,
    Option.bind_some]
  rw [htake _ _ _ h.param, takeParams_strings]
  obtain ⟨hs, heq⟩ := foldl_setParam (((NodeAttr.create attr.name attr.nodetype).setKernel attr.kernelname).setKey attr.key)
    attr.params
  rw [heq]
  congr 1
  ext1 <;> try rfl
  exact (Dictionary.foldl_insert id (m := []) (by simpa using attr.sorted)).trans (by simp)

private theorem exists_sendQueueMsg (F : Numbers D) (kernelkey : UInt64) (msgtype : Int) (attr : SimpleQueueAttr D) :
    ∃ msg, sendQueueMsg kernelkey msgtype attr = some msg ∧
      msgToQueueAttr F (msg.member (bytes "queueattr")) = some attr := by
  let queueattr : List (Key × Variant (Number D)) :=
    [(bytes "alpha", number (.double attr.alpha)), (bytes "datatype", string attr.datatype),
      (bytes "maxThreshold", ofUnsigned attr.maxThreshold),
      (bytes "maxwritethreshold", ofUnsigned attr.maxwritethreshold),
      (bytes "numChannels", ofUnsigned attr.numChannels), (bytes "queueLength", ofUnsigned attr.queueLength),
      (bytes "queuehint", ofHint attr.queuehint), (bytes "readerkey", ofKey attr.readerkey),
      (bytes "readernodekey", ofKey attr.readernodekey), (bytes "writerkey", ofKey attr.writerkey),
      (bytes "writernodekey", ofKey attr.writernodekey)]
  have hsend : sendQueueMsg kernelkey msgtype attr = some (object (Dictionary.insert (bytes "queueattr")
      (object queueattr)
      (Dictionary.insert (bytes "kernelkey") (ofKey kernelkey) (Dictionary.insert (bytes "type") (number (.integer msgtype))
        (Dictionary.insert (bytes "msgtype") (string (bytes "kernel")) []))))) := rfl
  have hqueuehint : (object queueattr).member (bytes "queuehint") = ofHint attr.queuehint := rfl
  have hdatatype : (object queueattr).member (bytes "datatype") = string attr.datatype := rfl
  have hqueueLength : (object queueattr).member (bytes "queueLength") = ofUnsigned attr.queueLength := rfl
  have hmaxThreshold : (object queueattr).member (bytes "maxThreshold") = ofUnsigned attr.maxThreshold := rfl
  have hnumChannels : (object queueattr).member (bytes "numChannels") = ofUnsigned attr.numChannels := rfl
  have hreaderkey : (object queueattr).member (bytes "readerkey") = ofKey attr.readerkey := rfl
  have hwriterkey : (object queueattr).member (bytes "writerkey") = ofKey attr.writerkey := rfl
  have hreadernodekey : (object queueattr).member (bytes "readernodekey") = ofKey attr.readernodekey := rfl
  have hwriternodekey : (object queueattr).member (bytes "writernodekey") = ofKey attr.writernodekey := rfl
  have halpha : (object queueattr).member (bytes "alpha") = number (.double attr.alpha) := rfl
  have hmaxwritethreshold :
      (object queueattr).member (bytes "maxwritethreshold") = ofUnsigned attr.maxwritethreshold := rfl
  refine ⟨_, hsend, ?_⟩
  rw [member_insert_self, msgToQueueAttr]
  simp only [constMember_object, hqueuehint, hdatatype, hqueueLength, hmaxThreshold, hnumChannels, hreaderkey, hwriterkey,
    hreadernodekey, hwriternodekey, halpha, hmaxwritethreshold, asHint_ofHint, asUnsigned_ofUnsigned, asKey_ofKey,
    asDouble_double, asString, Option.bind_eq_bind, Option.bind_some]

/-- The attributes of a queue survive the message, and those of a node do exactly when its kernel key is 0. -/
theorem attributes_survive_iff (F : Numbers D) (attr : NodeAttr) (queue : SimpleQueueAttr D) (kernelkey : UInt64)
    (msgtype : Int) :
    (∃ msg, sendCreateNode attr.kernelkey attr = some msg ∧
      (msgToNodeAttr F (msg.member (bytes "nodeattr")) = some attr ↔ attr.kernelkey = 0)) ∧
    ∃ msg, sendQueueMsg kernelkey msgtype queue = some msg ∧
      msgToQueueAttr F (msg.member (bytes "queueattr")) = some queue := by
  refine ⟨?_, exists_sendQueueMsg F kernelkey msgtype queue⟩
  obtain ⟨msg, nodeattr, hsend, hmsg, hdescribes⟩ := exists_sendCreateNode (D := D) attr.kernelkey attr
  refine ⟨msg, hsend, ?_⟩
  rw [hmsg, hdescribes.msgToNodeAttr, Option.some_inj]
  constructor
  · intro heq
    exact (congrArg NodeAttr.kernelkey heq).symm
  · intro h0
    ext1 <;> try rfl
    exact h0.symm

/-- Integers only, as a `double` as well. -/
def wholeNumbers : Numbers Int where
  text
    | .integer i => decimal i
    | .double i => decimal i
  parse s := (readDecimal s).map .integer
  text_ne_nil
    | .integer i => decimal_ne_nil i
    | .double i => decimal_ne_nil i
  truncate i := i
  ofInteger i := i

/-- A node for the kernel with the key 1 arrives with the kernel key 0. -/
theorem not_forall_attributes_survive :
    ¬ ∀ (attr : NodeAttr) (msg : Variant (Number Int)), sendCreateNode attr.kernelkey attr = some msg →
      msgToNodeAttr wholeNumbers (msg.member (bytes "nodeattr")) = some attr := by
  intro h
  let attr : NodeAttr := { NodeAttr.create (bytes "n") (bytes "t") with kernelkey := 1 }
  obtain ⟨msg, nodeattr, hsend, hmsg, hdescribes⟩ := exists_sendCreateNode (D := Int) attr.kernelkey attr
  have heq := h attr msg hsend
  rw [hmsg, hdescribes.msgToNodeAttr, Option.some_inj] at heq
  exact absurd (congrArg NodeAttr.kernelkey heq) (by decide)

end ProcessNetwork.AttributeMessages
