import ProcessNetwork.Variant

/-!
# Comparing variants

`Variant::Compare`, and the values for which it tells equal values from different ones.  `Compare` is to give 0 for
equal values, but for two arrays or two objects it gives what `==` of their containers says, which is 1 for equal ones,
and for null, true and false it looks at the type of the other operand twice.  The numbers are partially ordered: a NaN
is neither less nor greater than another number.
-/

namespace ProcessNetwork.Variant

variable {N : Type}

/-! ### The source -/

section

variable [PartialOrder N] [DecidableLT N] (F : NumberFormat N)

def compareNumbers (us o : N) : Int := if us < o then -1 else if o < us then 1 else 0

/-- `std::string::compare`. -/
def compareStrings (us o : List Byte) : Int := if us < o then -1 else if o < us then 1 else 0

/-- `CompareString`, with the string of the other operand; `none` when that string is not a number and has to be one. -/
def compareString (v : Variant N) (other : List Byte) : Option Int :=
  match v with
  | array _ | object _ => some 1
  | string stringval => some (compareStrings stringval other)
  | number numvalue => (F.parse other).map (compareNumbers numvalue)
  | null => some 1
  | bool false => some (if parseBool other then 1 else 0)
  | bool true => some (if parseBool other then 0 else 1)

def compareNumber (v : Variant N) (other : N) : Int :=
  match v with
  | array _ | object _ => 1
  | string stringval => compareStrings stringval (F.text other)
  | number numvalue => compareNumbers numvalue other
  | null => 1
  | bool _ => 0

mutual
/-- `Compare`; `none` when an assertion fails. -/
def compare : Variant N → Variant N → Option Int
  | array l, array l' =>
    if l.length = l'.length then (equalElements l l').map fun equal => if equal then 1 else 0 else some 0
  | object m, object m' =>
    if m.length = m'.length then (equalMembers m m').map fun equal => if equal then 1 else 0 else some 0
  | _, array _ | _, object _ => some 1
  | v, string s => compareString F v s
  | v, number n => some (compareNumber F v n)
  | _, null | _, bool _ => some 0

/-- `std::equal` for two vectors of one length. -/
def equalElements : List (Variant N) → List (Variant N) → Option Bool
  | a :: l, b :: l' => (compare a b).bind fun c => if c = 0 then equalElements l l' else some false
  | _, _ => some true

/-- `std::equal` for two maps of one size. -/
def equalMembers : List (List Byte × Variant N) → List (List Byte × Variant N) → Option Bool
  | (k, a) :: m, (k', b) :: m' =>
    if k = k' then (compare a b).bind fun c => if c = 0 then equalMembers m m' else some false else some false
  | _, _ => some true
end

end

/-! ### Values told unequal to themselves -/

mutual
/-- The value is not even told equal to itself: an array or an object each of whose elements is told equal to itself. -/
def SelfUnequal : Variant N → Prop
  | array l => NoneSelfUnequal l
  | object m => NoMemberSelfUnequal m
  | _ => False

def NoneSelfUnequal : List (Variant N) → Prop
  | [] => True
  | v :: l => ¬ v.SelfUnequal ∧ NoneSelfUnequal l

def NoMemberSelfUnequal : List (List Byte × Variant N) → Prop
  | [] => True
  | (_, v) :: m => ¬ v.SelfUnequal ∧ NoMemberSelfUnequal m
end

private theorem noneSelfUnequal_iff {l : List (Variant N)} : NoneSelfUnequal l ↔ ∀ v ∈ l, ¬ v.SelfUnequal := by
  induction l with
  | nil => simp [NoneSelfUnequal]
  | cons v l ih => rw [NoneSelfUnequal, ih, List.forall_mem_cons]

private theorem noMemberSelfUnequal_iff {m : List (List Byte × Variant N)} :
    NoMemberSelfUnequal m ↔ ∀ e ∈ m, ¬ e.2.SelfUnequal := by
  induction m with
  | nil => simp [NoMemberSelfUnequal]
  | cons e m ih => rw [NoMemberSelfUnequal, ih, List.forall_mem_cons]

/-! ### What the comparison takes for equal -/

section

variable [PartialOrder N] (F : NumberFormat N)

mutual
/-- The two values are taken for equal (`true`) or for different (`false`); for a number beside a string that is not a
number they are taken for neither. -/
def Taken : Bool → Variant N → Variant N → Prop
  | e, array l, array l' => if l.length = l'.length then TakenElements (!e) l l' else e = true
  | e, object m, object m' => if m.length = m'.length then TakenMembers (!e) m m' else e = true
  | e, _, array _ | e, _, object _ => e = false
  | e, string s, string t => e = decide (s = t)
  | e, number n, string t => ∃ o, F.parse t = some o ∧ (e = false ↔ n < o ∨ o < n)
  | e, bool b, string t => e = decide (parseBool t = b)
  | e, string s, number n => e = decide (s = F.text n)
  | e, number n, number o => e = false ↔ n < o ∨ o < n
  | e, bool _, number _ => e = true
  | e, _, string _ | e, _, number _ => e = false
  | e, _, null | e, _, bool _ => e = true

def TakenElements : Bool → List (Variant N) → List (Variant N) → Prop
  | true, a :: l, b :: l' => Taken true a b ∧ TakenElements true l l'
  | false, a :: l, b :: l' => Taken false a b ∨ Taken true a b ∧ TakenElements false l l'
  | e, _, _ => e = true

def TakenMembers : Bool → List (List Byte × Variant N) → List (List Byte × Variant N) → Prop
  | true, (k, a) :: m, (k', b) :: m' => k = k' ∧ Taken true a b ∧ TakenMembers true m m'
  | false, (k, a) :: m, (k', b) :: m' => k ≠ k' ∨ Taken false a b ∨ Taken true a b ∧ TakenMembers false m m'
  | e, _, _ => e = true
end

variable {F} {a b v : Variant N} {e : Bool}

mutual
private theorem taken_self : ∀ (v : Variant N) (e : Bool), Taken F e v v ↔ (e = false ↔ v.SelfUnequal)
  | array l, e => by
    rw [Taken, if_pos rfl, takenElements_self l, SelfUnequal, Bool.not_eq_true']
  | object m, e => by
    rw [Taken, if_pos rfl, takenMembers_self m, SelfUnequal, Bool.not_eq_true']
  | null, e | bool _, e | number _, e | string _, e => by simp [Taken, SelfUnequal]

theorem takenElements_self : ∀ (l : List (Variant N)) (e : Bool), TakenElements F e l l ↔ (e = true ↔ NoneSelfUnequal l)
  | [], e => by simp [TakenElements, NoneSelfUnequal]
  | v :: l, e => by
    cases e <;> simp [TakenElements, NoneSelfUnequal, taken_self v, takenElements_self l]
    tauto

theorem takenMembers_self : ∀ (m : List (List Byte × Variant N)) (e : Bool),
    TakenMembers F e m m ↔ (e = true ↔ NoMemberSelfUnequal m)
  | [], e => by simp [TakenMembers, NoMemberSelfUnequal]
  | (k, v) :: m, e => by
    cases e <;> simp [TakenMembers, NoMemberSelfUnequal, taken_self v, takenMembers_self m]
    tauto
end

private theorem takenElements_true_iff {l l' : List (Variant N)} (h : l.length = l'.length) :
    TakenElements F true l l' ↔ List.Forall₂ (Taken F true) l l' := by
  induction l generalizing l' with
  | nil =>
    cases List.length_eq_zero_iff.1 h.symm
    simp [TakenElements]
  | cons a l ih =>
    cases l' with
    | nil => cases h
    | cons b l' => rw [TakenElements, List.forall₂_cons, ih (Nat.succ.inj h)]

private theorem takenMembers_true_iff {m m' : List (List Byte × Variant N)} (h : m.length = m'.length) :
    TakenMembers F true m m' ↔ List.Forall₂ (fun e e' => e.1 = e'.1 ∧ Taken F true e.2 e'.2) m m' := by
  induction m generalizing m' with
  | nil =>
    cases List.length_eq_zero_iff.1 h.symm
    simp [TakenMembers]
  | cons e m ih =>
    cases m' with
    | nil => cases h
    | cons e' m' => rw [TakenMembers, List.forall₂_cons, ih (Nat.succ.inj h), and_assoc]

/-! ### The result of the comparison -/

variable [DecidableLT N]

/-- The result says equal (`e` is true) or different. -/
def Told (e : Bool) (result : Option Int) : Prop := ∃ n, result = some n ∧ (e = true ↔ n = 0)

private theorem told_some {n : Int} : Told e (some n) ↔ e = decide (n = 0) := by
  unfold Told
  cases e <;> simp

private theorem told_map_ite {r : Option Bool} : Told e (r.map fun equal => if equal then 1 else 0) ↔ r = some !e := by
  cases r with
  | none => simp [Told]
  | some equal =>
    rw [Option.map_some, told_some]
    cases equal <;> cases e <;> simp

private theorem told_bind {r : Option Int} {k : Option Bool} :
    (r.bind fun c => if c = 0 then k else some false) = some e ↔
      Told true r ∧ k = some e ∨ Told false r ∧ e = false := by
  cases r with
  | none => simp [Told]
  | some c =>
    rw [Option.bind_some, told_some, told_some]
    by_cases hc : c = 0 <;> cases e <;> simp [hc]

private theorem compareNumbers_eq_zero {n o : N} : compareNumbers n o = 0 ↔ ¬ (n < o ∨ o < n) := by
  unfold compareNumbers
  split_ifs <;> simp [*]

theorem compareStrings_eq_zero {s t : List Byte} : compareStrings s t = 0 ↔ s = t := by
  unfold compareStrings
  split_ifs with h h'
  · simp [h.ne]
  · simp [h'.ne']
  · exact iff_of_true rfl (le_antisymm (not_lt.1 h') (not_lt.1 h))

@[simp] theorem told_compareNumbers {n o : N} :
    Told e (some (compareNumbers n o)) ↔ (e = false ↔ n < o ∨ o < n) := by
  rw [told_some]
  by_cases h : n < o ∨ o < n
  · rw [decide_eq_false fun h0 => compareNumbers_eq_zero.1 h0 h, iff_true_right h]
  · rw [decide_eq_true (compareNumbers_eq_zero.2 h), iff_false_right h, Bool.not_eq_false]

@[simp] theorem told_compareStrings {s t : List Byte} :
    Told e (some (compareStrings s t)) ↔ e = decide (s = t) := by
  rw [told_some, decide_eq_decide.2 compareStrings_eq_zero]

/-- Two values that are not two arrays or two objects. -/
def Apart : Variant N → Variant N → Prop
  | array _, array _ | object _, object _ => False
  | _, _ => True

private theorem taken_of_apart (h : Apart a b) : Told e (compare F a b) ↔ Taken F e a b := by
  cases b with
  | null | bool => cases a <;> simp [compare, Taken, told_some]
  | array | object => cases a <;> simp_all [Apart, compare, Taken, told_some]
  | number n =>
    cases a with
    | string | number => simp [compare, compareNumber, Taken]
    | null | bool | array | object => simp [compare, compareNumber, Taken, told_some]
  | string t =>
    cases a with
    | null | array | object => simp [compare, compareString, Taken, told_some]
    | string => simp [compare, compareString, Taken]
    | bool c => cases c <;> cases ht : parseBool t <;> simp [compare, compareString, Taken, told_some, ht]
    | number n =>
      rw [compare, compareString, Taken]
      · cases F.parse t with
        | none => simp [Told]
        | some o => simp

mutual
/-- The comparison tells equal what is taken for equal, and different what is taken for different. -/
theorem told_iff_taken : ∀ (a b : Variant N) (e : Bool), Told e (compare F a b) ↔ Taken F e a b
  | array l, b, e => by
    cases b with
    | array l' =>
      rw [compare, Taken]
      split_ifs
      · rw [told_map_ite]
        exact equalElements_iff_taken l l' _
      · simp [told_some]
    | null | bool | number | string | object => exact taken_of_apart trivial
  | object m, b, e => by
    cases b with
    | object m' =>
      rw [compare, Taken]
      split_ifs
      · rw [told_map_ite]
        exact equalMembers_iff_taken m m' _
      · simp [told_some]
    | null | bool | number | string | array => exact taken_of_apart trivial
  | null, b, e | bool _, b, e | number _, b, e | string _, b, e => by
    exact taken_of_apart (by cases b <;> trivial)

theorem equalElements_iff_taken : ∀ (l l' : List (Variant N)) (e : Bool),
    equalElements F l l' = some e ↔ TakenElements F e l l'
  | [], l', e => by cases l' <;> cases e <;> simp [equalElements, TakenElements]
  | a :: l, [], e => by cases e <;> simp [equalElements, TakenElements]
  | a :: l, b :: l', e => by
    rw [equalElements, told_bind, told_iff_taken a b, told_iff_taken a b, equalElements_iff_taken l l']
    cases e
    · simp only [TakenElements, and_true]
      exact or_comm
    · simp [TakenElements]

theorem equalMembers_iff_taken : ∀ (m m' : List (List Byte × Variant N)) (e : Bool),
    equalMembers F m m' = some e ↔ TakenMembers F e m m'
  | [], m', e => by cases m' <;> cases e <;> simp [equalMembers, TakenMembers]
  | (k, a) :: m, [], e => by cases e <;> simp [equalMembers, TakenMembers]
  | (k, a) :: m, (k', b) :: m', e => by
    rw [equalMembers]
    by_cases hk : k = k'
    · rw [if_pos hk, told_bind, told_iff_taken a b, told_iff_taken a b, equalMembers_iff_taken m m']
      cases e
      · simp only [TakenMembers, and_true, hk, ne_eq, not_true_eq_false, false_or]
        exact or_comm
      · simp [TakenMembers, hk]
    · cases e <;> simp [TakenMembers, hk]
end

/-! ### The comparison and equality -/

def Plain : Variant N → Prop
  | number _ | string _ => False
  | _ => True

/-- Two values of one type, or two values that are neither numbers nor strings. -/
def Comparable (a b : Variant N) : Prop := a.getType = b.getType ∨ Plain a ∧ Plain b

variable (F) in
/-- `Compare` returns, and it gives 0 exactly when the two values are equal. -/
def ComparesRight (a b : Variant N) : Prop := ∃ n, compare F a b = some n ∧ (n = 0 ↔ a = b)

/-- The values are not two arrays or two objects, and a value beside null, true or false is that value; of two numbers one is
less if they differ. -/
def Straight : Variant N → Variant N → Prop
  | a, null => a = null
  | a, bool b => a = bool b
  | number n, number o => n = o ∨ n < o ∨ o < n
  | array _, array _ | object _, object _ => False
  | _, _ => True

variable (F) in
/-- Two arrays or two objects for which what `Compare` tells is right because it is wrong about elements of theirs. -/
def Undone : Variant N → Variant N → Prop
  | array l, array l' => l = l' ∧ (∃ v ∈ l, v.SelfUnequal) ∨ l ≠ l' ∧ List.Forall₂ (Taken F true) l l'
  | object m, object m' =>
    m = m' ∧ (∃ e ∈ m, e.2.SelfUnequal) ∨
      m ≠ m' ∧ List.Forall₂ (fun e e' => e.1 = e'.1 ∧ Taken F true e.2 e'.2) m m'
  | _, _ => False

/-- The last two values are at one place of the first two: elements of two arrays, or members of two objects with one key. -/
inductive Paired : Variant N → Variant N → Variant N → Variant N → Prop
  | element {l l' : List (Variant N)} {x y : Variant N} (i : Nat) (hx : l[i]? = some x) (hy : l'[i]? = some y) :
    Paired (array l) (array l') x y
  | member {m m' : List (List Byte × Variant N)} {k : List Byte} {x y : Variant N} (i : Nat) (hx : m[i]? = some (k, x))
    (hy : m'[i]? = some (k, y)) : Paired (object m) (object m') x y

private theorem comparesRight_self : ComparesRight F v v ↔ ¬ v.SelfUnequal := by
  have h := (told_iff_taken v v true).trans (taken_self (F := F) v true)
  simpa [ComparesRight, Told] using h

private theorem comparesRight_of_ne (h : a ≠ b) : ComparesRight F a b ↔ Taken F false a b := by
  rw [← told_iff_taken a b]
  simp [ComparesRight, Told, h]

private theorem comparesRight_array {l l' : List (Variant N)} :
    ComparesRight F (array l) (array l') ↔ Undone F (array l) (array l') := by
  rw [Undone]
  by_cases h : l = l'
  · subst h
    rw [comparesRight_self, SelfUnequal, noneSelfUnequal_iff]
    simp
  · rw [comparesRight_of_ne (by simpa using h), Taken]
    split_ifs with hlen
    · simp [h, takenElements_true_iff hlen]
    · have hnot : ¬ List.Forall₂ (Taken F true) l l' := fun hall => hlen hall.length_eq
      simp [h, hnot]

private theorem comparesRight_object {m m' : List (List Byte × Variant N)} :
    ComparesRight F (object m) (object m') ↔ Undone F (object m) (object m') := by
  rw [Undone]
  by_cases h : m = m'
  · subst h
    rw [comparesRight_self, SelfUnequal, noMemberSelfUnequal_iff]
    simp
  · rw [comparesRight_of_ne (by simpa using h), Taken]
    split_ifs with hlen
    · simp [h, takenMembers_true_iff hlen]
    · have hnot : ¬ List.Forall₂ (fun e e' => e.1 = e'.1 ∧ Taken F true e.2 e'.2) m m' := fun hall => hlen hall.length_eq
      simp [h, hnot]

/-- Two values not both arrays or both objects, when one of them is an array or an object or they are of one type. -/
theorem comparesRight_of_apart (h : Comparable a b) (hab : Apart a b) : ComparesRight F a b ↔ Straight a b := by
  by_cases heq : a = b
  · subst heq
    rw [comparesRight_self]
    cases a <;> simp_all [Apart, SelfUnequal, Straight]
  · rw [comparesRight_of_ne heq]
    cases b with
    | null | bool => cases a <;> simp_all [Taken, Straight]
    | number o => cases a <;> simp_all [Comparable, Plain, Taken, Straight]
    | string t => cases a <;> simp_all [Comparable, Plain, Taken, Straight]
    | array | object => cases a <;> simp_all [Comparable, Plain, Apart, Taken, Straight]

private theorem comparesRight_iff (h : Comparable a b) : ComparesRight F a b ↔ Straight a b ∨ Undone F a b := by
  have happart (hab : Apart a b) : ComparesRight F a b ↔ Straight a b ∨ Undone F a b := by
    rw [comparesRight_of_apart h hab]
    cases a <;> cases b <;> simp_all [Apart, Undone]
  cases a with
  | array l =>
    cases b with
    | array l' => simp [comparesRight_array, Straight]
    | null | bool | number | string | object => exact happart trivial
  | object m =>
    cases b with
    | object m' => simp [comparesRight_object, Straight]
    | null | bool | number | string | array => exact happart trivial
  | null | bool | number | string => exact happart (by cases b <;> trivial)

private theorem eq_of_taken (h : Taken F true a b) (hright : ComparesRight F a b) : a = b := by
  obtain ⟨n, hn, hn0⟩ := (told_iff_taken a b true).2 h
  obtain ⟨n', hn', hn0'⟩ := hright
  rw [hn] at hn'
  cases hn'
  exact hn0'.1 (hn0.1 rfl)

/-- When what is told of two arrays or two objects is right, what is told of some of their elements is wrong. -/
theorem exists_paired_of_undone (h : Undone F a b) : ∃ x y, Paired a b x y ∧ ¬ ComparesRight F x y := by
  by_contra! hall
  cases a with
  | array l =>
    cases b with
    | array l' =>
      rw [Undone] at h
      rcases h with ⟨rfl, v, hv, hself⟩ | ⟨hne, htaken⟩
      · obtain ⟨i, hi⟩ := List.mem_iff_getElem?.1 hv
        exact comparesRight_self.1 (hall v v (.element i hi hi)) hself
      · refine hne (List.ext_getElem htaken.length_eq fun i hi hi' => ?_)
        exact eq_of_taken (htaken.get hi hi')
          (hall _ _ (.element i (List.getElem?_eq_getElem hi) (List.getElem?_eq_getElem hi')))
    | null | bool | number | string | object => exact h
  | object m =>
    cases b with
    | object m' =>
      rw [Undone] at h
      rcases h with ⟨rfl, ⟨k, v⟩, hv, hself⟩ | ⟨hne, htaken⟩
      · obtain ⟨i, hi⟩ := List.mem_iff_getElem?.1 hv
        exact comparesRight_self.1 (hall v v (.member i hi hi)) hself
      · refine hne (List.ext_getElem htaken.length_eq fun i hi hi' => ?_)
        obtain ⟨hkey, ht⟩ := htaken.get hi hi'
        refine Prod.ext hkey (eq_of_taken ht (hall _ _ (.member (k := m[i].1) i (List.getElem?_eq_getElem hi) ?_)))
        rw [List.getElem?_eq_getElem hi', show m[i].1 = m'[i].1 from hkey]
    | null | bool | number | string | array => exact h
  | null | bool | number | string => cases b <;> exact h

/-- What `Compare` tells of two values and of the elements of theirs that it compares is right just if it does not compare
elements, and if it does not look at the second value in place of the first one. -/
theorem comparesRight_throughout_iff (h : Comparable a b) :
    (ComparesRight F a b ∧ ∀ x y, Paired a b x y → ComparesRight F x y) ↔ Straight a b := by
  rw [comparesRight_iff h]
  constructor
  · rintro ⟨hstraight | hundone, hall⟩
    · exact hstraight
    · obtain ⟨x, y, hxy, hwrong⟩ := exists_paired_of_undone hundone
      exact absurd (hall x y hxy) hwrong
  · refine fun hstraight => ⟨.inl hstraight, fun x y hxy => ?_⟩
    cases hxy <;> exact hstraight.elim

variable (F) in
/-- `Compare` tells rightly of two values and of their elements whether they are equal exactly when they are no arrays or
objects and none is taken for the null, the true or the false beside it; of two arrays or two objects alone it tells it
exactly when another error undoes that of the containers.  A value equals its copy exactly when it is not one that is
told unequal to itself. -/
theorem compare_structural_iff (a b v : Variant N) (h : Comparable a b) (hv : v.Proper) :
    ((ComparesRight F a b ∧ ∀ x y, Paired a b x y → ComparesRight F x y) ↔ Straight a b) ∧
    (ComparesRight F a b ↔ Straight a b ∨ Undone F a b) ∧ (compare F v v.copy = some 0 ↔ ¬ v.SelfUnequal) ∧
    (Straight a b ∨ Undone F a b → Straight b a ∨ Undone F b a → (compare F a b = some 0 ↔ compare F b a = some 0)) := by
  have h' : Comparable b a := h.imp Eq.symm And.symm
  refine ⟨comparesRight_throughout_iff h, comparesRight_iff h, ?_, fun hab hba => ?_⟩
  · rw [copy_of_proper v hv, ← comparesRight_self (F := F)]
    simp [ComparesRight]
  · obtain ⟨n, hn, hn0⟩ := (comparesRight_iff h).2 hab
    obtain ⟨n', hn', hn0'⟩ := (comparesRight_iff h').2 hba
    rw [hn, hn', Option.some_inj, Option.some_inj, hn0, hn0']
    exact eq_comm

end

/-- Two arrays of an empty array are told equal, because the empty arrays in them are told different. -/
theorem compare_structural_iff_nested :
    ComparesRight decimalFormat (array [array []]) (array [array []]) ∧
      ¬ ∀ x y, Paired (array [array []]) (array [array []]) x y → ComparesRight decimalFormat x y := by
  obtain ⟨hthroughout, hiff, -⟩ := compare_structural_iff decimalFormat (array [array []]) (array [array []])
    (array [array []]) (.inl rfl) (by simp [Proper, ProperElements])
  have hright := hiff.2 (.inr (.inl ⟨rfl, array [], List.mem_singleton_self _, by simp [SelfUnequal, NoneSelfUnequal]⟩))
  exact ⟨hright, fun hall => hthroughout.1 ⟨hright, hall⟩⟩

/-- Two empty arrays are told different. -/
theorem not_forall_compare_structural :
    ¬ ∀ a b : Variant Int, Comparable a b → ComparesRight decimalFormat a b := by
  intro h
  obtain ⟨n, hn, hn0⟩ := h (array []) (array []) (.inl rfl)
  have hone : compare decimalFormat (array [] : Variant Int) (array []) = some 1 := rfl
  rw [hone] at hn
  cases hn
  exact absurd (hn0.2 rfl) (by decide)

end ProcessNetwork.Variant
