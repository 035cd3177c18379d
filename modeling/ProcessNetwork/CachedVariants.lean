import ProcessNetwork.JSONRoundTrip
import ProcessNetwork.Lib.Traverse
import ProcessNetwork.VariantCache

/-!
# Variants with their caches as JSON

`VariantToJSON` of a variant in the store, whose elements and members are shared and whose texts are cached.  What it
writes of a null, a boolean or a number is what `AsString` returns, so a cached text that is not the one of the value is
written in its place.  What is written is the text of another value, the one that the caches show (`variantToJSON_eq`);
it is the value itself, unless a null shows the boolean or the number that it was before `Clear` (`shown_eq_scalar_iff`).
-/

namespace ProcessNetwork.VariantCache

open JSON (indent insertString objSep valSep NulFree Throughout Throughout.and throughoutElements_iff
  throughoutMembers_iff Int64)

/-! ### Values and texts -/

section

variable {N : Type}

/-- The value of a variant that has no elements and no members. -/
def Cell.scalar (c : Cell N) : Variant N :=
  match c.type with
  | .nullType => .null
  | .boolType b => .bool b
  | .numberType => .number c.numvalue
  | .stringType => .string c.stringval
  | .arrayType => .array []
  | .objectType => .object []

/-- The value of a variant whose elements are nested less than `n` deep, with `leaf` for those that have none. -/
def Store.tree (s : Store N) (leaf : Cell N → Variant N) : Nat → Cell N → Option (Variant N)
  | 0, _ => none
  | n + 1, c =>
    match c.type with
    | .arrayType => (s.elements c).bind fun x => (x.2.mapM (tree s leaf n)).map .array
    | .objectType => (s.members c).bind fun x => (x.2.mapM fun e => (tree s leaf n e.2).map (Prod.mk e.1)).map .object
    | _ => some (leaf c)

def Store.value (s : Store N) : Nat → Cell N → Option (Variant N) := s.tree Cell.scalar

/-- What is written between brackets or braces; the first text has no separator before it. -/
def separated (pretty : Bool) (level : Nat) : Bool → List (List Byte) → List Byte
  | _, [] => []
  | first, t :: ts => (if first then [] else valSep) ++ (indent pretty level ++ (t ++ separated pretty level false ts))

/-- `VariantToJSON` of a variant whose elements are nested less than `n` deep.  `AsString` fills caches on the way, which
does not change what it returns (`Cell.asString_asString`). -/
def Store.variantToJSON (s : Store N) (F : NumberFormat N) (pretty : Bool) : Nat → Nat → Cell N → Option (List Byte)
  | 0, _, _ => none
  | n + 1, level, c =>
    match c.type with
    | .nullType | .boolType _ | .numberType => (c.asString F).1
    | .stringType => (c.asString F).1.map insertString
    | .arrayType =>
      (s.elements c).bind fun x => (x.2.mapM (variantToJSON s F pretty n (u32 (level + 1)))).map fun ts =>
        91 :: (separated pretty level true ts ++ (indent pretty (sub32 level 1) ++ [93]))
    | .objectType =>
      (s.members c).bind fun x => (x.2.mapM fun e =>
        (variantToJSON s F pretty n (u32 (level + 1)) e.2).map fun t => insertString e.1 ++ (objSep ++ t)).map fun ts =>
          123 :: (separated pretty level true ts ++ (indent pretty (sub32 level 1) ++ [125]))

/-- `VariantToJSON` at the first level. -/
def Store.toJSON (s : Store N) (F : NumberFormat N) (pretty : Bool) (n : Nat) (c : Cell N) : Option (List Byte) :=
  s.variantToJSON F pretty n 1 c

/-- The second variant is the first one, or one of its elements or members, or one of theirs. -/
inductive Store.Within (s : Store N) : Cell N → Cell N → Prop
  | self (c : Cell N) : Within s c c
  | element {c d e : Cell N} {a : Nat} {l : List (Cell N)} (hc : s.elements c = some (a, l)) (he : e ∈ l)
      (hd : Within s e d) : Within s c d
  | member {c d : Cell N} {o : Nat} {m : List (Key × Cell N)} {e : Key × Cell N} (hc : s.members c = some (o, m))
      (he : e ∈ m) (hd : Within s e.2 d) : Within s c d

/-! ### Trees -/

/-- The variant has neither elements nor members. -/
def Cell.IsLeaf (c : Cell N) : Prop := c.type ≠ .arrayType ∧ c.type ≠ .objectType

namespace Store

variable {s : Store N} {c d : Cell N} {leaf leaf' : Cell N → Variant N} {n : Nat} {v : Variant N}

private theorem tree_of_isLeaf (hc : c.IsLeaf) : s.tree leaf (n + 1) c = some (leaf c) := by
  rw [tree]
  split
  · rename_i ht
    exact absurd ht hc.1
  · rename_i ht
    exact absurd ht hc.2
  · rfl

private theorem tree_of_array (hc : c.type = .arrayType) :
    s.tree leaf (n + 1) c = (s.elements c).bind fun x => (x.2.mapM (s.tree leaf n)).map .array := by
  rw [tree, hc]

private theorem tree_of_object (hc : c.type = .objectType) : s.tree leaf (n + 1) c =
    (s.members c).bind fun x => (x.2.mapM fun e => (s.tree leaf n e.2).map (Prod.mk e.1)).map .object := by
  rw [tree, hc]

/-- Induction on the tree of a variant. -/
theorem tree_induction {motive : Nat → Cell N → Variant N → Prop} (hleaf : ∀ n c, c.IsLeaf → motive (n + 1) c (leaf c))
    (harray : ∀ n c a l vs, c.type = .arrayType → s.elements c = some (a, l) →
      List.Forall₂ (fun d w => s.tree leaf n d = some w ∧ motive n d w) l vs → motive (n + 1) c (.array vs))
    (hobject : ∀ n c o m vs, c.type = .objectType → s.members c = some (o, m) →
      List.Forall₂ (fun e w => e.1 = w.1 ∧ s.tree leaf n e.2 = some w.2 ∧ motive n e.2 w.2) m vs →
        motive (n + 1) c (.object vs))
    (h : s.tree leaf n c = some v) : motive n c v := by
  induction n generalizing c v with
  | zero => cases h
  | succ n ih =>
    by_cases ha : c.type = .arrayType
    · rw [tree_of_array ha, Option.bind_eq_some_iff] at h
      obtain ⟨⟨a, l⟩, hl, h⟩ := h
      obtain ⟨vs, hvs, rfl⟩ := Option.map_eq_some_iff.1 h
      exact harray n c a l vs ha hl ((mapM_eq_some_iff.1 hvs).imp fun d w hd => ⟨hd, ih hd⟩)
    · by_cases ho : c.type = .objectType
      · rw [tree_of_object ho, Option.bind_eq_some_iff] at h
        obtain ⟨⟨o, m⟩, hm, h⟩ := h
        obtain ⟨vs, hvs, rfl⟩ := Option.map_eq_some_iff.1 h
        refine hobject n c o m vs ho hm ((mapM_eq_some_iff.1 hvs).imp fun e w hd => ?_)
        obtain ⟨x, hx, rfl⟩ := Option.map_eq_some_iff.1 hd
        exact ⟨rfl, hx, ih hx⟩
      · rw [tree_of_isLeaf ⟨ha, ho⟩] at h
        cases h
        exact hleaf n c ⟨ha, ho⟩

/-! ### What is within a variant -/

theorem type_of_elements {a : Nat} {l : List (Cell N)} (h : s.elements c = some (a, l)) : c.type = .arrayType := by
  unfold elements at h
  split_ifs at h with ht
  exact ht

private theorem type_of_members {o : Nat} {m : List (Key × Cell N)} (h : s.members c = some (o, m)) :
    c.type = .objectType := by
  unfold members at h
  split_ifs at h with ht
  exact ht

private theorem mem_of_members {o : Nat} {m : List (Key × Cell N)} (h : s.members c = some (o, m)) : m ∈ s.objects := by
  unfold members at h
  split_ifs at h
  obtain ⟨o', -, h⟩ := Option.bind_eq_some_iff.1 h
  obtain ⟨m', hm', heq⟩ := Option.map_eq_some_iff.1 h
  cases heq
  exact List.mem_of_getElem? hm'

private theorem within_of_isLeaf (hc : c.IsLeaf) : s.Within c d ↔ d = c := by
  constructor
  · intro h
    cases h with
    | self => rfl
    | element hl => exact absurd (type_of_elements hl) hc.1
    | member hm => exact absurd (type_of_members hm) hc.2
  · rintro rfl
    exact .self d

private theorem within_of_elements {a : Nat} {l : List (Cell N)} (hl : s.elements c = some (a, l)) :
    s.Within c d ↔ d = c ∨ ∃ e ∈ l, s.Within e d := by
  constructor
  · intro h
    cases h with
    | self => exact .inl rfl
    | element hl' he hd =>
      rw [hl] at hl'
      cases hl'
      exact .inr ⟨_, he, hd⟩
    | member hm =>
      have := (type_of_elements hl).symm.trans (type_of_members hm)
      cases this
  · rintro (rfl | ⟨e, he, hd⟩)
    · exact .self d
    · exact .element hl he hd

private theorem within_of_members {o : Nat} {m : List (Key × Cell N)} (hm : s.members c = some (o, m)) :
    s.Within c d ↔ d = c ∨ ∃ e ∈ m, s.Within e.2 d := by
  constructor
  · intro h
    cases h with
    | self => exact .inl rfl
    | element hl =>
      have := (type_of_elements hl).symm.trans (type_of_members hm)
      cases this
    | member hm' he hd =>
      rw [hm] at hm'
      cases hm'
      exact .inr ⟨_, he, hd⟩
  · rintro (rfl | ⟨e, he, hd⟩)
    · exact .self d
    · exact .member hm he hd

private theorem All.within {P : Cell N → Prop} (h : s.All P) (hc : P c) (hd : s.Within c d) : P d := by
  induction hd with
  | self => exact hc
  | element hl he _ ih => exact ih (h.elements hl _ he)
  | member hm he _ ih => exact ih (h.members hm _ he)

/-! ### What holds of a tree -/

/-- Two trees of a variant are the same when they have the same leaves. -/
theorem tree_eq_iff (h : s.tree leaf n c = some v) :
    s.tree leaf' n c = some v ↔ ∀ d, s.Within c d → d.IsLeaf → leaf' d = leaf d := by
  refine tree_induction (motive := fun n c v =>
    s.tree leaf' n c = some v ↔ ∀ d, s.Within c d → d.IsLeaf → leaf' d = leaf d) ?_ ?_ ?_ h
  · intro n c hc
    rw [tree_of_isLeaf hc, Option.some.injEq]
    refine ⟨fun heq d hd _ => ?_, fun hall => hall c (.self c) hc⟩
    rw [(within_of_isLeaf hc).1 hd]
    exact heq
  · intro n c a l vs hc hl hvs
    have hlist : s.tree leaf' (n + 1) c = some (.array vs) ↔ l.mapM (s.tree leaf' n) = some vs := by
      rw [tree_of_array hc, hl, Option.bind_some, Option.map_eq_some_iff]
      simp
    rw [hlist, mapM_eq_some_iff, forall₂_iff_forall_mem (hvs.imp fun _ _ hd => hd.2)]
    constructor
    · rintro hall d hd hleaf
      rcases (within_of_elements hl).1 hd with rfl | ⟨e, he, hd⟩
      · exact absurd hc hleaf.1
      · exact hall e he d hd hleaf
    · exact fun hall e he d hd => hall d (.element hl he hd)
  · intro n c o m vs hc hm hvs
    have hlist : s.tree leaf' (n + 1) c = some (.object vs) ↔
        (m.mapM fun e => (s.tree leaf' n e.2).map (Prod.mk e.1)) = some vs := by
      rw [tree_of_object hc, hm, Option.bind_some, Option.map_eq_some_iff]
      simp
    have hpair (e : Key × Cell N) (w : Key × Variant N)
        (hd : e.1 = w.1 ∧ s.tree leaf n e.2 = some w.2 ∧
          (s.tree leaf' n e.2 = some w.2 ↔ ∀ d, s.Within e.2 d → d.IsLeaf → leaf' d = leaf d)) :
        (s.tree leaf' n e.2).map (Prod.mk e.1) = some w ↔ ∀ d, s.Within e.2 d → d.IsLeaf → leaf' d = leaf d := by
      obtain ⟨k, x⟩ := w
      obtain ⟨rfl, -, hd⟩ := hd
      rw [← hd, Option.map_eq_some_iff]
      simp
    rw [hlist, mapM_eq_some_iff, forall₂_iff_forall_mem (hvs.imp hpair)]
    constructor
    · rintro hall d hd hleaf
      rcases (within_of_members hm).1 hd with rfl | ⟨e, he, hd⟩
      · exact absurd hc hleaf.2
      · exact hall e he d hd hleaf
    · exact fun hall e he d hd => hall d (.member hm he hd)

/-- Whether there is a tree does not depend on its leaves. -/
theorem exists_tree (h : s.tree leaf n c = some v) : ∃ w, s.tree leaf' n c = some w := by
  refine tree_induction (motive := fun n c _ => ∃ w, s.tree leaf' n c = some w) (fun n c hc => ⟨_, tree_of_isLeaf hc⟩)
    ?_ ?_ h
  · intro n c a l vs hc hl hvs
    obtain ⟨ws, hws⟩ := exists_mapM (forall_mem_of_forall₂ (hvs.imp fun _ _ hd => hd.2))
    exact ⟨.array ws, by rw [tree_of_array hc, hl, Option.bind_some, hws, Option.map_some]⟩
  · intro n c o m vs hc hm hvs
    have hmem : ∀ e ∈ m, ∃ w, (s.tree leaf' n e.2).map (Prod.mk e.1) = some w := by
      refine forall_mem_of_forall₂ (hvs.imp fun e _ hd => ?_)
      obtain ⟨w, hw⟩ := hd.2.2
      exact ⟨(e.1, w), by rw [hw, Option.map_some]⟩
    obtain ⟨ws, hws⟩ := exists_mapM hmem
    exact ⟨.object ws, by rw [tree_of_object hc, hm, Option.bind_some, hws, Option.map_some]⟩

/-- What holds throughout a tree holds of its leaves and its keys. -/
theorem throughout_tree {number : N → Prop} {text : List Byte → Prop} (h : s.tree leaf n c = some v) :
    Throughout number text v ↔ ∀ d, s.Within c d → (d.IsLeaf → Throughout number text (leaf d)) ∧
      ∀ o m, s.members d = some (o, m) → ∀ e ∈ m, text e.1 := by
  refine tree_induction (motive := fun _ c v => Throughout number text v ↔ ∀ d, s.Within c d →
    (d.IsLeaf → Throughout number text (leaf d)) ∧ ∀ o m, s.members d = some (o, m) → ∀ e ∈ m, text e.1) ?_ ?_ ?_ h
  · intro n c hc
    constructor
    · intro hleaf d hd
      rw [(within_of_isLeaf hc).1 hd]
      exact ⟨fun _ => hleaf, fun o m hm => absurd (type_of_members hm) hc.2⟩
    · exact fun hall => (hall c (.self c)).1 hc
  · intro n c a l vs hc hl hvs
    rw [Throughout, throughoutElements_iff, ← forall_mem_iff_of_forall₂ (hvs.imp fun _ _ hd => hd.2.symm)]
    constructor
    · intro hall d hd
      rcases (within_of_elements hl).1 hd with rfl | ⟨e, he, hd⟩
      · refine ⟨fun hleaf => absurd hc hleaf.1, fun o m hm => ?_⟩
        have := hc.symm.trans (type_of_members hm)
        cases this
      · exact hall e he d hd
    · exact fun hall e he d hd => hall d (.element hl he hd)
  · intro n c o m vs hc hm hvs
    have hpair (e : Key × Cell N) (w : Key × Variant N)
        (hd : e.1 = w.1 ∧ s.tree leaf n e.2 = some w.2 ∧ (Throughout number text w.2 ↔ ∀ d, s.Within e.2 d →
          (d.IsLeaf → Throughout number text (leaf d)) ∧ ∀ o m, s.members d = some (o, m) → ∀ e ∈ m, text e.1)) :
        (text e.1 ∧ ∀ d, s.Within e.2 d → (d.IsLeaf → Throughout number text (leaf d)) ∧
          ∀ o m, s.members d = some (o, m) → ∀ e ∈ m, text e.1) ↔ text w.1 ∧ Throughout number text w.2 := by
      rw [hd.1, hd.2.2]
    rw [Throughout, throughoutMembers_iff, ← forall_mem_iff_of_forall₂ (hvs.imp hpair)]
    constructor
    · intro hall d hd
      rcases (within_of_members hm).1 hd with rfl | ⟨e, he, hd⟩
      · refine ⟨fun hleaf => absurd hc hleaf.2, fun o' m' hm' e he => ?_⟩
        rw [hm] at hm'
        cases hm'
        exact (hall e he).1
      · exact (hall e he).2 d hd
    · exact fun hall e he => ⟨(hall c (.self c)).2 o m hm e he, fun d hd => hall d (.member hm he hd)⟩

/-- A tree over maps is proper. -/
theorem proper_tree (hs : ∀ m ∈ s.objects, Dictionary.Sorted m) (hleaf : ∀ d : Cell N, d.IsLeaf → (leaf d).Proper)
    (h : s.tree leaf n c = some v) : v.Proper := by
  refine tree_induction (motive := fun _ _ v => v.Proper) (fun _ c hc => hleaf c hc) ?_ ?_ h
  · intro n c a l vs _ _ hvs
    rw [Variant.Proper, Variant.properElements_iff, ← forall_mem_iff_of_forall₂ (P := fun _ => True)]
    · exact fun _ _ => trivial
    · exact hvs.imp fun _ _ hd => ⟨fun _ => hd.2, fun _ => trivial⟩
  · intro n c o m vs _ hm hvs
    have hkeys : m.map Prod.fst = vs.map Prod.fst := by
      refine List.forall₂_eq_eq_eq ▸ List.forall₂_map_left_iff.2 (List.forall₂_map_right_iff.2 (hvs.imp fun _ _ hd => hd.1))
    rw [Variant.Proper, Variant.properMembers_iff]
    refine ⟨?_, ?_⟩
    · unfold Dictionary.Sorted
      rw [← hkeys]
      exact hs m (mem_of_members hm)
    · rw [← forall_mem_iff_of_forall₂ (P := fun _ => True)]
      · exact fun _ _ => trivial
      · exact hvs.imp fun _ _ hd => ⟨fun _ => hd.2.2, fun _ => trivial⟩

end Store

/-! ### What is written -/

variable {F : NumberFormat N} {pretty : Bool} {c : Cell N} {s : Store N}

/-- The cache does not change what `AsString` returns. -/
theorem Cell.asString_asString : ((c.asString F).2.asString F).1 = (c.asString F).1 := by
  obtain ⟨type, numvalue, stringval, array, object⟩ := c
  by_cases hs : stringval = []
  · subst hs
    cases type with
    | boolType b => cases b <;> simp [Cell.asString]
    | numberType => simp [Cell.asString, F.text_ne_nil]
    | nullType | stringType | arrayType | objectType => simp [Cell.asString]
  · simp [Cell.asString, hs]

/-- What is written of the variant is what is written of the value. -/
def Cell.Shows (F : NumberFormat N) (c : Cell N) (w : Variant N) : Prop :=
  match c.type with
  | .nullType | .boolType _ | .numberType => isScalar w.getType = true ∧ (c.asString F).1 = w.asString F
  | .stringType => w = .string c.stringval
  | .arrayType | .objectType => True

private theorem elementsToJSON_eq (level : Nat) (first : Bool) (l : List (Variant N)) :
    JSON.elementsToJSON F pretty level first l =
      separated pretty level first (l.map (JSON.variantToJSON F pretty (u32 (level + 1)))) := by
  induction l generalizing first with
  | nil =>
    rw [JSON.elementsToJSON]
    rfl
  | cons v l ih =>
    rw [JSON.elementsToJSON, ih]
    rfl

private theorem membersToJSON_eq (level : Nat) (first : Bool) (m : List (Key × Variant N)) :
    JSON.membersToJSON F pretty level first m = separated pretty level first
      (m.map fun e => insertString e.1 ++ (objSep ++ JSON.variantToJSON F pretty (u32 (level + 1)) e.2)) := by
  induction m generalizing first with
  | nil =>
    rw [JSON.membersToJSON]
    rfl
  | cons e m ih =>
    obtain ⟨k, v⟩ := e
    rw [JSON.membersToJSON, ih, List.map_cons, separated]
    simp only [List.append_assoc]

private theorem variantToJSON_of_isScalar {w : Variant N} {t : List Byte} (hw : isScalar w.getType = true)
    (ht : w.asString F = some t)
    (level : Nat) : JSON.variantToJSON F pretty level w = t := by
  cases w with
  | null | bool | number =>
    rw [JSON.variantToJSON, ht]
    · rfl
    all_goals simp
  | string | array | object => cases hw

private theorem variantToJSON_eq {leaf : Cell N → Variant N} (h : ∀ d, s.Within c d → d.Shows F (leaf d)) (n level : Nat) :
    s.variantToJSON F pretty n level c = (s.tree leaf n c).map (JSON.variantToJSON F pretty level) := by
  induction n generalizing c level with
  | zero => rfl
  | succ n ih =>
    have hc := h c (.self c)
    unfold Cell.Shows at hc
    -- the text of a scalar is in its cache, or is made from the value
    have hscalar (ht : isScalar c.type = true) (hw : isScalar (leaf c).getType = true ∧ (c.asString F).1 =
      (leaf c).asString F) :
        (c.asString F).1 = (s.tree leaf (n + 1) c).map (JSON.variantToJSON F pretty level) := by
      have hleaf : c.IsLeaf := by
        constructor <;> (intro hty; rw [hty] at ht; cases ht)
      obtain ⟨t, htext⟩ : ∃ t, (leaf c).asString F = some t := by
        have hw := hw.1
        cases hl : leaf c with
        | null | bool | number => exact ⟨_, rfl⟩
        | string | array | object =>
          rw [hl] at hw
          cases hw
      rw [Store.tree_of_isLeaf hleaf, Option.map_some, hw.2, variantToJSON_of_isScalar hw.1 htext, htext]
    rw [Store.variantToJSON]
    cases hty : c.type with
    | nullType | boolType | numberType =>
      rw [hty] at hc
      exact hscalar (by rw [hty]; rfl) hc
    | stringType =>
      rw [hty] at hc
      have hleaf : c.IsLeaf := by
        constructor <;> (intro ht; rw [hty] at ht; cases ht)
      have hstring : (c.asString F).1 = some c.stringval := by
        unfold Cell.asString
        rw [hty]
        split_ifs <;> rfl
      rw [Store.tree_of_isLeaf hleaf, Option.map_some, hc, JSON.variantToJSON, hstring]
      rfl
    | arrayType =>
      rw [Store.tree_of_array hty]
      cases hl : s.elements c with
      | none => rfl
      | some x =>
        obtain ⟨a, l⟩ := x
        -- the elements have one level less
        have hl' : ∀ d ∈ l, s.variantToJSON F pretty n (u32 (level + 1)) d =
            (s.tree leaf n d).map (JSON.variantToJSON F pretty (u32 (level + 1))) :=
          fun d hd => ih (fun e he => h e (.element hl hd he)) _
        dsimp only [Option.bind_some]
        rw [mapM_eq_map_mapM hl', Option.map_map, Option.map_map]
        refine congrArg (Option.map · _) (funext fun vs => ?_)
        dsimp only [Function.comp]
        rw [JSON.variantToJSON, elementsToJSON_eq]
    | objectType =>
      rw [Store.tree_of_object hty]
      cases hm : s.members c with
      | none => rfl
      | some x =>
        obtain ⟨o, m⟩ := x
        have hm' : ∀ e ∈ m, ((s.variantToJSON F pretty n (u32 (level + 1)) e.2).map fun t => insertString e.1 ++
          (objSep ++ t)) =
            ((s.tree leaf n e.2).map (Prod.mk e.1)).map fun w : Key × Variant N =>
              insertString w.1 ++ (objSep ++ JSON.variantToJSON F pretty (u32 (level + 1)) w.2) := by
          intro e he
          rw [ih (fun d hd => h d (.member hm he hd)), Option.map_map, Option.map_map]
          rfl
        dsimp only [Option.bind_some]
        rw [mapM_eq_map_mapM hm', Option.map_map, Option.map_map]
        refine congrArg (Option.map · _) (funext fun vs => ?_)
        dsimp only [Function.comp]
        rw [JSON.variantToJSON, membersToJSON_eq]

end

/-! ### What the caches show -/

/-- The value with the text that `AsString` returns, for the text of a null, a boolean or an integer. -/
def valueOfText (t : List Byte) : Variant Int :=
  if t = bytes "null" then .null
  else if t = bytes "true" then .bool true
  else if t = bytes "false" then .bool false
  else .number ((readDecimal t).getD 0)

/-- The value that is written for the variant: the one of its cached text, if there is one. -/
def Cell.shown (c : Cell Int) : Variant Int :=
  if isScalar c.type = true ∧ c.stringval ≠ [] then valueOfText c.stringval else c.scalar

/-- A text of a null, of a boolean or of an integer of 64 bits. -/
def ScalarText (t : List Byte) : Prop :=
  t = bytes "null" ∨ t = bytes "true" ∨ t = bytes "false" ∨ ∃ i, Int64 i ∧ t = decimal i

/-- An integer of 64 bits is a number, and the cache holds the text of the value; or that of an earlier one, for a null. -/
def Cell.Legible (c : Cell Int) : Prop :=
  match c.type with
  | .nullType => c.stringval = [] ∨ ScalarText c.stringval
  | .boolType _ => c.Cached decimalFormat
  | .numberType => Int64 c.numvalue ∧ c.Cached decimalFormat
  | .stringType | .arrayType | .objectType => True

section

variable {c : Cell Int} {t : List Byte} {i : Int}

private theorem readDecimal_decimal (i : Int) : readDecimal (decimal i) = some i := by
  have hread : readDecimal (decimal i ++ []) = some i := JSON.readDecimal_append i fun _ hc => absurd hc List.not_mem_nil
  rwa [List.append_nil] at hread

private theorem valueOfText_decimal (i : Int) : valueOfText (decimal i) = .number i := by
  have hne (t : List Byte) (ht : readDecimal t = none) : decimal i ≠ t := by
    rintro rfl
    rw [readDecimal_decimal] at ht
    cases ht
  unfold valueOfText
  rw [if_neg (hne _ (by decide)), if_neg (hne _ (by decide)), if_neg (hne _ (by decide)), readDecimal_decimal]
  rfl

private theorem asString_valueOfText (h : ScalarText t) :
    isScalar (valueOfText t).getType = true ∧ (valueOfText t).asString decimalFormat = some t ∧
      Throughout Int64 (fun _ => True) (valueOfText t) := by
  rcases h with rfl | rfl | rfl | ⟨i, hi, rfl⟩
  · exact ⟨rfl, rfl, by simp [valueOfText, Throughout]⟩
  · have hv : valueOfText (bytes "true") = .bool true := rfl
    rw [hv]
    exact ⟨rfl, rfl, by simp [Throughout]⟩
  · have hv : valueOfText (bytes "false") = .bool false := rfl
    rw [hv]
    exact ⟨rfl, rfl, by simp [Throughout]⟩
  · rw [valueOfText_decimal]
    exact ⟨rfl, rfl, by rwa [Throughout]⟩

/-- Every scalar that is legible has the text of a scalar in its cache, if any. -/
theorem Cell.Legible.scalarText (h : c.Legible) (hs : isScalar c.type = true) :
    c.stringval = [] ∨ ScalarText c.stringval := by
  unfold Cell.Legible at h
  cases hty : c.type with
  | nullType =>
    rw [hty] at h
    exact h
  | boolType b =>
    rw [hty] at h
    refine h.imp id fun htext => ?_
    rw [Cell.text, hty] at htext
    cases b with
    | true => exact .inr (.inl (Option.some.inj htext).symm)
    | false => exact .inr (.inr (.inl (Option.some.inj htext).symm))
  | numberType =>
    rw [hty] at h
    refine h.2.imp id fun htext => ?_
    rw [Cell.text, hty] at htext
    exact .inr (.inr (.inr ⟨c.numvalue, h.1, (Option.some.inj htext).symm⟩))
  | stringType | arrayType | objectType =>
    rw [hty] at hs
    cases hs

private theorem Cell.shown_of_nil (h : c.stringval = []) : c.shown = c.scalar := if_neg fun hs => hs.2 h

private theorem Cell.shown_of_ne_nil (hs : isScalar c.type = true) (h : c.stringval ≠ []) :
    c.shown = valueOfText c.stringval :=
  if_pos ⟨hs, h⟩

private theorem Cell.shown_of_not_isScalar (hs : isScalar c.type = false) : c.shown = c.scalar :=
  if_neg fun h => Bool.false_ne_true (hs.symm.trans h.1)

/-- What is shown is what is written. -/
theorem Cell.Legible.shows (h : c.Legible) : c.Shows decimalFormat c.shown := by
  have hscalar (hs : isScalar c.type = true) :
      isScalar c.shown.getType = true ∧ (c.asString decimalFormat).1 = c.shown.asString decimalFormat := by
    by_cases hnil : c.stringval = []
    · rw [Cell.shown_of_nil hnil, Cell.asString, if_neg (not_not.2 hnil), Cell.scalar]
      cases hty : c.type with
      | boolType b => cases b <;> exact ⟨rfl, rfl⟩
      | nullType | numberType => exact ⟨rfl, rfl⟩
      | stringType | arrayType | objectType =>
        rw [hty] at hs
        cases hs
    · obtain ⟨htype, htext, -⟩ := asString_valueOfText ((h.scalarText hs).resolve_left hnil)
      rw [Cell.shown_of_ne_nil hs hnil, Cell.asString, if_pos hnil]
      exact ⟨htype, htext.symm⟩
  unfold Cell.Shows
  cases hty : c.type with
  | nullType | boolType | numberType => exact hscalar (by rw [hty]; rfl)
  | stringType =>
    dsimp only
    rw [Cell.shown_of_not_isScalar (by rw [hty]; rfl), Cell.scalar, hty]
  | arrayType | objectType => trivial

private theorem Cell.Legible.throughout_shown (h : c.Legible) (hleaf : c.IsLeaf) :
    Throughout Int64 (fun _ => True) c.shown := by
  by_cases hs : isScalar c.type = true ∧ c.stringval ≠ []
  · rw [Cell.shown_of_ne_nil hs.1 hs.2]
    exact (asString_valueOfText ((h.scalarText hs.1).resolve_left hs.2)).2.2
  · rw [Cell.shown, if_neg hs, Cell.scalar]
    unfold Cell.Legible at h
    cases hty : c.type with
    | numberType =>
      rw [hty] at h
      rw [Throughout]
      exact h.1
    | nullType | boolType | stringType => simp [Throughout]
    | arrayType => exact absurd hty hleaf.1
    | objectType => exact absurd hty hleaf.2

/-- What is shown is the value, unless it is the one before `Clear`. -/
theorem Cell.Legible.shown_eq_scalar_iff (h : c.Legible) :
    c.shown = c.scalar ↔ (c.type = .nullType → c.stringval = [] ∨ c.stringval = bytes "null") := by
  by_cases hnil : c.stringval = []
  · exact ⟨fun _ _ => .inl hnil, fun _ => Cell.shown_of_nil hnil⟩
  · unfold Cell.Legible at h
    cases hty : c.type with
    | nullType =>
      rw [hty] at h
      rw [Cell.shown_of_ne_nil (by rw [hty]; rfl) hnil, Cell.scalar, hty]
      refine ⟨fun heq _ => .inr ?_, fun hnull => ?_⟩
      · have htext := (asString_valueOfText (h.resolve_left hnil)).2.1
        rw [heq] at htext
        exact (Option.some.inj htext).symm
      · rw [(hnull rfl).resolve_left hnil]
        rfl
    | boolType b =>
      rw [hty] at h
      have htext := h.resolve_left hnil
      rw [Cell.text, hty] at htext
      refine ⟨fun _ hnull => (by cases hnull), fun _ => ?_⟩
      rw [Cell.shown_of_ne_nil (by rw [hty]; rfl) hnil, Cell.scalar, hty]
      cases b with
      | true => rw [← Option.some.inj htext]; rfl
      | false => rw [← Option.some.inj htext]; rfl
    | numberType =>
      rw [hty] at h
      have htext := h.2.resolve_left hnil
      rw [Cell.text, hty] at htext
      refine ⟨fun _ hnull => (by cases hnull), fun _ => ?_⟩
      rw [Cell.shown_of_ne_nil (by rw [hty]; rfl) hnil, Cell.scalar, hty, ← Option.some.inj htext]
      exact valueOfText_decimal c.numvalue
    | stringType | arrayType | objectType =>
      exact ⟨fun _ hnull => (by cases hnull), fun _ => Cell.shown_of_not_isScalar (by rw [hty]; rfl)⟩

end

/-! ### The variants of a program -/

/-- A number that is put into a variant is an integer of 64 bits. -/
def Integers : Op Int → Prop
  | .createNumber n => Int64 n
  | _ => True

instance : DecidablePred Integers
  | .createNumber n => inferInstanceAs (Decidable (-2 ^ 63 ≤ n ∧ n < 2 ^ 63))
  | .create _ | .createString _ | .createCopy _ | .assign _ _ | .swap _ _ | .asString _ | .asArray _ | .listBegin _
  | .listEnd _ | .asObject _ | .mapBegin _ | .mapEnd _ | .clear _ | .append _ _ | .at _ _ => isTrue trivial

section

variable {s t : Store Int} {op : Op Int}

private theorem closed_legible : Closed decimalFormat Cell.Legible where
  create type array object := by
    cases type with
    | nullType | boolType => exact .inl rfl
    | numberType => exact ⟨⟨by norm_num, by norm_num⟩, .inl rfl⟩
    | stringType | arrayType | objectType => trivial
  string v := trivial
  assign c v hv := by
    unfold Cell.Legible at hv
    unfold Cell.assign Cell.Legible
    cases hty : v.type with
    | nullType | boolType => exact .inl rfl
    | numberType =>
      rw [hty] at hv
      exact ⟨hv.1, .inl rfl⟩
    | stringType | arrayType | objectType => trivial
  asString c h := by
    unfold Cell.asString
    split_ifs with hs
    · exact h
    · unfold Cell.Legible at h ⊢
      cases hty : c.type with
      | boolType b => cases b <;> exact .inr rfl
      | nullType => exact .inr (.inl rfl)
      | numberType =>
        rw [hty] at h
        exact ⟨h.1, .inr rfl⟩
      | stringType | arrayType | objectType => simp [hty]
  clearString c _ ht := by
    unfold Cell.Legible
    dsimp only
    rw [ht]
    trivial

private theorem keeps_legible (h : s.All Cell.Legible) (hop : Integers op) : Keeps Cell.Legible s op := by
  cases op with
  | createNumber n => exact ⟨hop, .inl rfl⟩
  | clear p =>
    intro c hc hs
    exact (h.get hc).scalarText hs
  | «at» p i => cases i <;> exact fun _ _ _ _ => trivial
  | asArray | listBegin | listEnd | append | asObject | mapBegin | mapEnd => exact fun _ _ _ _ => trivial
  | create | createString | createCopy | assign | swap | asString => exact trivial

private theorem legible_of_reachableBy (h : (variants decimalStream).ReachableBy (fun _ => Integers) s) :
    s.All Cell.Legible := by
  refine h.invariant (fun s hs => ?_) fun s op t hs hop ht => hs.next closed_legible (keeps_legible hs hop) ht
  rw [show s = ⟨[], [], []⟩ from hs]
  exact ⟨fun _ hc => absurd hc List.not_mem_nil, fun _ hl => absurd hl List.not_mem_nil,
    fun _ hm => absurd hm List.not_mem_nil⟩

/-! ### The maps are sorted -/

/-- The maps of the store are dictionaries. -/
def Store.Ordered (s : Store Int) : Prop := ∀ m ∈ s.objects, Dictionary.Sorted m

namespace Store.Ordered

variable {p : Place} {c : Cell Int}

private theorem set (h : s.Ordered) : (s.set p c).Ordered := by
  cases p with
  | var | element => exact h
  | member o k =>
    refine forall_mem_modify h (fun m hm => ?_) o
    have hkeys : (m.map fun e => if e.1 = k then (k, c) else e).map Prod.fst = m.map Prod.fst := by
      rw [List.map_map]
      refine List.map_congr_left fun e _ => ?_
      by_cases he : e.1 = k <;> simp [he]
    unfold Dictionary.Sorted at hm ⊢
    rwa [hkeys]

private theorem setObject {o : Nat} {m : List (Key × Cell Int)} (h : s.Ordered) (hm : Dictionary.Sorted m) :
    ({ s with objects := s.objects.set o m } : Store Int).Ordered :=
  fun m' hm' => (List.mem_or_eq_of_mem_set hm').elim (h m') fun heq => heq ▸ hm

private theorem newObject (h : s.Ordered) : ({ s with objects := s.objects ++ [[]] } : Store Int).Ordered :=
  List.forall_mem_append.2 ⟨h, List.forall_mem_singleton.2 Dictionary.sorted_nil⟩

private theorem toArray (h : s.Ordered) : (s.toArray p c).1.Ordered := by
  unfold Store.toArray
  split_ifs
  · exact set (s := { s with arrays := s.arrays ++ [[]] }) h
  · exact h

private theorem toObject (h : s.Ordered) : (s.toObject p c).1.Ordered := by
  unfold Store.toObject
  split_ifs
  · exact h.newObject.set
  · exact h

private theorem index {k : Key} (h : s.Ordered) (i : Option Nat) : (index s c i k).Ordered := by
  unfold VariantCache.index
  split
  · unfold resize
    split_ifs <;> exact h
  · next hm _ =>
    unfold insertNull
    split_ifs
    · exact h
    · exact h.setObject (Dictionary.sorted_insert (h _ (mem_of_members hm)))
  · exact h

private theorem next (h : s.Ordered) (ht : VariantCache.next decimalStream s op = some t) : t.Ordered := by
  cases op with
  | create type =>
    cases ht
    cases type with
    | objectType => exact h.newObject
    | nullType | boolType | numberType | stringType | arrayType => exact h
  | createNumber | createString =>
    cases ht
    exact h
  | createCopy q =>
    obtain ⟨v, -, rfl⟩ := Option.map_eq_some_iff.1 ht
    exact h
  | assign p q =>
    obtain ⟨c, -, ht⟩ := Option.bind_eq_some_iff.1 ht
    obtain ⟨v, -, ht⟩ := Option.bind_eq_some_iff.1 ht
    cases ht
    exact h.set
  | swap p other =>
    obtain ⟨o, -, ht⟩ := Option.bind_eq_some_iff.1 ht
    obtain ⟨c, -, ht⟩ := Option.bind_eq_some_iff.1 ht
    obtain ⟨c', -, ht⟩ := Option.bind_eq_some_iff.1 ht
    cases ht
    exact h.set.set
  | asString p =>
    obtain ⟨c, -, rfl⟩ := Option.map_eq_some_iff.1 ht
    exact h.set
  | asArray p | listBegin p | listEnd p =>
    obtain ⟨c, -, rfl⟩ := Option.map_eq_some_iff.1 ht
    exact h.toArray
  | asObject p | mapBegin p | mapEnd p =>
    obtain ⟨c, -, rfl⟩ := Option.map_eq_some_iff.1 ht
    exact h.toObject
  | clear p =>
    obtain ⟨c, -, rfl⟩ := Option.map_eq_some_iff.1 ht
    cases c.type with
    | arrayType =>
      dsimp only
      split <;> exact h
    | objectType =>
      dsimp only
      split
      -- `Clear` empties the object where the variants that share it see it
      · exact h.setObject Dictionary.sorted_nil
      · exact h
    | nullType | boolType | numberType | stringType => exact h.set
  | append p value =>
    obtain ⟨c, -, ht⟩ := Option.bind_eq_some_iff.1 ht
    obtain ⟨v, -, rfl⟩ := Option.map_eq_some_iff.1 ht
    have harr : (s.toArray p c).1.Ordered := h.toArray
    split <;> exact harr
  | «at» p i =>
    cases i with
    | unsigned i =>
      obtain ⟨c, -, rfl⟩ := Option.map_eq_some_iff.1 ht
      exact h.toArray.index _
    | string k =>
      obtain ⟨c, -, rfl⟩ := Option.map_eq_some_iff.1 ht
      exact h.toObject.index _

end Store.Ordered

private theorem ordered_of_reachableBy {ok : Store Int → Op Int → Prop}
    (h : (variants decimalStream).ReachableBy ok s) : s.Ordered := by
  refine h.invariant (fun s hs => ?_) fun s op t hs _ ht => hs.next ht
  rw [show s = ⟨[], [], []⟩ from hs]
  exact fun _ hm => absurd hm List.not_mem_nil

end

/-! ### The round trip -/

section

variable {s : Store Int} {c : Cell Int} {n : Nat} {v w : Variant Int}

private theorem Cell.proper_scalar (c : Cell Int) : c.scalar.Proper := by
  unfold Cell.scalar
  cases c.type <;> simp [Variant.Proper, Variant.ProperElements, Variant.ProperMembers, Dictionary.Sorted]

private theorem Cell.proper_shown (c : Cell Int) : c.shown.Proper := by
  unfold Cell.shown valueOfText
  split_ifs <;> first | exact c.proper_scalar | simp [Variant.Proper]

/-- A text of the value is one that is shown. -/
theorem Cell.nulFree_shown (c : Cell Int) (h : Throughout (fun _ => True) NulFree c.scalar) :
    Throughout (fun _ => True) NulFree c.shown := by
  unfold Cell.shown valueOfText
  split_ifs <;> first | exact h | simp [Throughout]

/-- What is written is the text of what is shown, which is read if there is no zero in it. -/
theorem variantFromJSON_shown (strtod : List Byte → Int) (pretty : Bool) (h : s.All Cell.Legible) (ho : s.Ordered)
    (hc : c.Legible)
    (hroot : c.type = .arrayType ∨ c.type = .objectType) (hw : s.tree Cell.shown n c = some w) :
    s.toJSON decimalFormat pretty n c = some (JSON.toJSON decimalFormat pretty w) ∧
      (Throughout (fun _ => True) NulFree w →
        JSON.variantFromJSON ⟨id, strtod⟩ (JSON.toJSON decimalFormat pretty w) = .ok w) := by
  have hlegible {d : Cell Int} (hd : s.Within c d) : d.Legible := h.within hc hd
  have htype : w.getType = .arrayType ∨ w.getType = .objectType := by
    cases n with
    | zero => cases hw
    | succ n =>
      rcases hroot with ht | ht
      · rw [Store.tree_of_array ht, Option.bind_eq_some_iff] at hw
        obtain ⟨x, -, hw⟩ := hw
        obtain ⟨vs, -, rfl⟩ := Option.map_eq_some_iff.1 hw
        exact .inl rfl
      · rw [Store.tree_of_object ht, Option.bind_eq_some_iff] at hw
        obtain ⟨x, -, hw⟩ := hw
        obtain ⟨vs, -, rfl⟩ := Option.map_eq_some_iff.1 hw
        exact .inr rfl
  refine ⟨?_, fun hnul => ?_⟩
  · rw [Store.toJSON, variantToJSON_eq fun d hd => (hlegible hd).shows, hw, Option.map_some]
    rfl
  · have hint : Throughout Int64 (fun _ => True) w :=
      (Store.throughout_tree hw).2 fun d hd => ⟨(hlegible hd).throughout_shown, fun _ _ _ _ _ => trivial⟩
    exact JSON.variantFromJSON_of_throughout (fun i hi => JSON.reads_integer hi rfl) htype
      (Store.proper_tree ho (fun d _ => d.proper_shown) hw) (Throughout.and w hint hnul)

/-- A variant that has been written comes back just if there is no zero in its texts, and no null in it holds the text of
a boolean or a number that was cleared. -/
theorem variantFromJSON_toJSON (strtod : List Byte → Int) (pretty : Bool)
    (hs : (variants decimalStream).ReachableBy (fun _ => Integers) s) {p : Place} (hp : s.get p = some c)
    (hroot : c.type = .arrayType ∨ c.type = .objectType) (hv : s.value n c = some v) :
    (s.toJSON decimalFormat pretty n c).map (JSON.variantFromJSON ⟨id, strtod⟩) = some (.ok v) ↔
      Throughout (fun _ => True) NulFree v ∧
      ∀ d, s.Within c d → d.type = .nullType → d.stringval = [] ∨ d.stringval = bytes "null" := by
  have hall := legible_of_reachableBy hs
  have hc := hall.get hp
  obtain ⟨w, hw⟩ : ∃ w, s.tree Cell.shown n c = some w := Store.exists_tree hv
  obtain ⟨htext, hread⟩ := variantFromJSON_shown strtod pretty hall (ordered_of_reachableBy hs) hc hroot hw
  -- the caches show the value just if no null is stale
  have hsame : s.tree Cell.shown n c = some v ↔
      ∀ d, s.Within c d → d.type = .nullType → d.stringval = [] ∨ d.stringval = bytes "null" := by
    rw [Store.tree_eq_iff hv]
    refine forall₂_congr fun d hd => ?_
    rw [(hall.within hc hd).shown_eq_scalar_iff]
    refine ⟨fun himp ht => himp ⟨?_, ?_⟩ ht, fun himp _ => himp⟩ <;> (rw [ht]; decide)
  rw [htext, Option.map_some, Option.some.injEq, ← hsame, hw, Option.some.injEq]
  constructor
  · intro h
    have hnul := JSON.throughout_of_variantFromJSON h
    have hnul' : Throughout (fun _ => True) NulFree w :=
      (Store.throughout_tree hw).2 fun d hd =>
        have hd := (Store.throughout_tree hv).1 hnul d hd
        ⟨fun hleaf => d.nulFree_shown (hd.1 hleaf), hd.2⟩
    exact ⟨hnul, Except.ok.inj ((hread hnul').symm.trans h)⟩
  · rintro ⟨hnul, rfl⟩
    exact hread hnul

/-- An object with an array of a number and a null, whose texts are cached, and a string, and with an empty object. -/
theorem variantFromJSON_toJSON_nested : ∃ (s : Store Int) (c : Cell Int),
    (variants decimalStream).ReachableBy (fun _ => Integers) s ∧ s.get (.var 0) = some c ∧
      (s.toJSON decimalFormat true 3 c).map (JSON.variantFromJSON ⟨id, fun _ => 0⟩) =
        some (.ok (.object [(bytes "a", .array [.number (-7), .string (bytes "\"\n"), .null]),
          (bytes "b", .object [])])) := by
  have hrun : (((variants decimalStream).runBy (fun _ => Integers) ⟨[], [], []⟩
      [.create .objectType, .at (.var 0) (.string (bytes "a")), .createNumber (-7), .createString (bytes "\"\n"),
        .create .nullType, .append (.member 0 (bytes "a")) (.var 1), .append (.member 0 (bytes "a")) (.var 2),
        .append (.member 0 (bytes "a")) (.var 3), .asString (.element 0 0), .asString (.element 0 2),
        .at (.var 0) (.string (bytes "b")), .asObject (.member 0 (bytes "b"))]).any
      fun s => decide (s.vars = [⟨.objectType, 0, [], none, some 0⟩, ⟨.numberType, -7, [], none, none⟩,
          ⟨.stringType, 0, bytes "\"\n", none, none⟩, ⟨.nullType, 0, [], none, none⟩] ∧
        s.arrays = [[⟨.numberType, -7, bytes "-7", none, none⟩, ⟨.stringType, 0, bytes "\"\n", none, none⟩,
          ⟨.nullType, 0, bytes "null", none, none⟩]] ∧
        s.objects = [[(bytes "a", ⟨.arrayType, 0, [], some 0, none⟩), (bytes "b", ⟨.objectType, 0, [], none, some 1⟩)],
          []])) = true := by decide +kernel
  obtain ⟨⟨vars, arrays, objects⟩, hs, hp⟩ := Machine.exists_reachableBy (M := variants decimalStream) rfl hrun
  obtain ⟨rfl, rfl, rfl⟩ := of_decide_eq_true hp
  refine ⟨_, _, hs, rfl, (variantFromJSON_toJSON (fun _ => 0) true hs (p := .var 0) rfl (.inr rfl) rfl).2 ⟨?_, ?_⟩⟩
  · simp only [Throughout, JSON.ThroughoutElements, JSON.ThroughoutMembers, NulFree, and_true]
    decide
  · exact fun d hd => Store.All.within (P := fun d : Cell Int => d.type = .nullType → d.stringval = [] ∨
      d.stringval = bytes "null") ⟨by decide, by decide, by decide⟩ (by decide) hd

/-- Not even if the texts are ASCII: what is behind a zero is not written. -/
theorem not_forall_variantFromJSON_toJSON : ¬ ∀ (pretty : Bool) (s : Store Int),
    (variants decimalStream).ReachableBy (fun _ => Integers) s → ∀ (p : Place) (c : Cell Int) (n : Nat) (v : Variant Int),
      s.get p = some c → c.type = .arrayType ∨ c.type = .objectType → s.value n c = some v →
      Throughout Int64 (fun t => ∀ b ∈ t, b < 128) v →
      (s.toJSON decimalFormat pretty n c).map (JSON.variantFromJSON ⟨id, fun _ => 0⟩) = some (.ok v) := by
  intro h
  have hrun : (((variants decimalStream).runBy (fun _ => Integers) ⟨[], [], []⟩
      [.create .arrayType, .createString [97, 0, 98], .append (.var 0) (.var 1)]).any
      fun s => decide (s.vars = [⟨.arrayType, 0, [], some 0, none⟩, ⟨.stringType, 0, [97, 0, 98], none, none⟩] ∧
        s.arrays = [[⟨.stringType, 0, [97, 0, 98], none, none⟩]] ∧ s.objects = [])) = true := by decide +kernel
  obtain ⟨⟨vars, arrays, objects⟩, hs, hp⟩ := Machine.exists_reachableBy (M := variants decimalStream) rfl hrun
  obtain ⟨rfl, rfl, rfl⟩ := of_decide_eq_true hp
  have hread := h false _ hs (.var 0) _ 2 (.array [.string [97, 0, 98]]) rfl (.inl rfl) rfl
    (by simp only [Throughout, JSON.ThroughoutElements, and_true]; decide +kernel)
  obtain ⟨text, -, hread⟩ := Option.map_eq_some_iff.1 hread
  have hnul := JSON.throughout_of_variantFromJSON hread
  simp [Throughout, JSON.ThroughoutElements, NulFree] at hnul

end

end ProcessNetwork.VariantCache
