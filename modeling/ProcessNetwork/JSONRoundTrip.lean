import Mathlib.Data.Nat.Digits.Lemmas
import ProcessNetwork.JSONReading

/-!
# What is written can be read

The text of a value takes the parser from a place where a value may stand to where it is ready (`feed_value`), by
induction on
the value.
-/

namespace ProcessNetwork.JSON

/-! ### Decimals -/

theorem isdigit_digit {n : Nat} (h : n < 10) : isdigit (UInt8.ofNat (48 + n)) = true := by
  interval_cases n <;> rfl

private theorem digit_value {n : Nat} (h : n < 10) : (UInt8.ofNat (48 + n)).toNat - 48 = n := by
  interval_cases n <;> rfl

private theorem isdigit_of_mem_decimalNat {n : Nat} {c : Byte} (hc : c ∈ decimalNat n) : isdigit c = true := by
  unfold decimalNat at hc
  split_ifs at hc with hn
  · rw [List.mem_singleton.1 hc]
    rfl
  · obtain ⟨digit, hdigit, rfl⟩ := List.mem_map.1 hc
    exact isdigit_digit (Nat.digits_lt_base (by decide) (List.mem_reverse.1 hdigit))

private theorem foldl_digits {l : List Nat} (hl : ∀ n ∈ l, n < 10) :
    (l.reverse.map fun n => UInt8.ofNat (48 + n)).foldl (fun n c => 10 * n + (c.toNat - 48)) 0 = Nat.ofDigits 10 l := by
  induction l with
  | nil => rfl
  | cons n l ih =>
    rw [List.forall_mem_cons] at hl
    rw [List.reverse_cons, List.map_append, List.foldl_append, ih hl.2, Nat.ofDigits_cons]
    show 10 * Nat.ofDigits 10 l + ((UInt8.ofNat (48 + n)).toNat - 48) = n + 10 * Nat.ofDigits 10 l
    rw [digit_value hl.1, Nat.add_comm]

private theorem foldl_decimalNat (n : Nat) : (decimalNat n).foldl (fun n c => 10 * n + (c.toNat - 48)) 0 = n := by
  unfold decimalNat
  split_ifs with hn
  · rw [hn]
    rfl
  · rw [foldl_digits fun m hm => Nat.digits_lt_base (by decide) hm, Nat.ofDigits_digits]

private theorem White.not_digit {ws : List Byte} (hws : White ws) : ws.takeWhile isdigit = [] := by
  cases ws with
  | nil => rfl
  | cons c ws => rcases hws c List.mem_cons_self with rfl | rfl <;> rfl

private theorem readDecimalNat_append (n : Nat) {ws : List Byte} (hws : White ws) :
    readDecimalNat (decimalNat n ++ ws) = some n := by
  have htake : (decimalNat n ++ ws).takeWhile isdigit = decimalNat n := by
    rw [List.takeWhile_append_of_pos fun c hc => isdigit_of_mem_decimalNat hc, hws.not_digit, List.append_nil]
  unfold readDecimalNat
  rw [htake]
  cases hdigits : decimalNat n with
  | nil => exact absurd hdigits (decimalNat_ne_nil n)
  | cons c s =>
    have := foldl_decimalNat n
    rw [hdigits] at this
    exact congrArg some this

theorem readDecimal_append (i : Int) {ws : List Byte} (hws : White ws) : readDecimal (decimal i ++ ws) = some i := by
  cases i with
  | ofNat n =>
    show readDecimal (decimalNat n ++ ws) = some (n : Int)
    have hread := readDecimalNat_append n hws
    cases hdigits : decimalNat n with
    | nil => exact absurd hdigits (decimalNat_ne_nil n)
    | cons c s =>
      have hc : c ≠ 45 := by
        rintro rfl
        exact absurd (isdigit_of_mem_decimalNat (hdigits ▸ List.mem_cons_self)) (by decide)
      rw [hdigits] at hread
      unfold readDecimal
      split
      · rename_i heq
        exact absurd (List.cons.inj heq).1 hc
      · rw [hread]
        rfl
  | negSucc n =>
    rw [decimal, List.cons_append, readDecimal, readDecimalNat_append (n + 1) hws]
    rfl

private theorem scanInteger_decimal {i : Int} (hlow : -2 ^ 63 ≤ i) (hhigh : i < 2 ^ 63) {ws : List Byte} (hws : White ws) :
    scanInteger (decimal i ++ ws) = i := by
  unfold scanInteger
  rw [readDecimal_append i hws, Option.getD_some, min_eq_right (by omega), max_eq_right hlow]

private theorem exists_decimalNat {n : Nat} (h : n ≠ 0) : ∃ m < 10, m ≠ 0 ∧ ∃ s : List Byte,
    decimalNat n = UInt8.ofNat (48 + m) :: s ∧ ∀ c ∈ s, isdigit c = true := by
  have hne : Nat.digits 10 n ≠ [] := Nat.digits_ne_nil_iff_ne_zero.2 h
  have hdecimal : decimalNat n = UInt8.ofNat (48 + (Nat.digits 10 n).getLast hne) ::
      (Nat.digits 10 n).dropLast.reverse.map fun d => UInt8.ofNat (48 + d) := by
    unfold decimalNat
    rw [if_neg h]
    conv_lhs => rw [← List.dropLast_append_getLast hne]
    rw [List.reverse_append, List.reverse_singleton, List.singleton_append, List.map_cons]
  refine ⟨_, Nat.digits_lt_base (by decide) (List.getLast_mem hne), Nat.getLast_digit_ne_zero 10 h, _, hdecimal,
    fun c hc => isdigit_of_mem_decimalNat (n := n) ?_⟩
  rw [hdecimal]
  exact List.mem_cons_of_mem _ hc

section Values

variable {N : Type} {F : Numbers N} {b b' : JSONToVariant N} {bc : State} {stack : List Mode} {buf : List Byte} {d : Nat}

/-! ### Numbers -/

/-- A parser in an integer, with what it has read of it. -/
def inInteger (state beforeComment : State) (stack : List Mode) (parseBuffer : List Byte) : JSONParser :=
  ⟨state, beforeComment, .integer, false, false, true, 0, stack, parseBuffer⟩

private theorem feed_digits {s : List Byte} (hs : ∀ c ∈ s, isdigit c = true) :
    feed (JSONToVariant.callback F) (inInteger .it bc stack buf, d + 1, b) s =
      some (inInteger .it bc stack (s.reverse ++ buf), d + 1, b) := by
  induction s generalizing buf with
  | nil => rfl
  | cons c s ih =>
    rw [List.forall_mem_cons] at hs
    have htr : ∀ c : Byte, isdigit c = true → (charClass c).map (transition .it) = some (.state .it) := by
      apply forall_byte
      decide +kernel
    obtain ⟨cls, hcls, htr⟩ := Option.map_eq_some_iff.1 (htr c hs.1)
    have hchar : (inInteger .it bc stack buf).char (Parser.callback (JSONToVariant.callback F)) (d + 1, b) c =
        some (inInteger .it bc stack (c :: buf), d + 1, b) :=
      char_state hcls (addChar_push rfl rfl (.inl (by simp [inInteger]))) htr
    rw [feed_cons s hchar (Nat.succ_ne_zero d), List.reverse_cons, List.append_assoc]
    exact ih hs.2

/-- The digits of a number where a value may stand, or behind a minus sign. -/
theorem feed_decimalNat {jc : JSONParser}
    (hjc : jc = resting .ar bc stack ∨ jc = resting .va bc stack ∨ jc = inInteger .mi bc stack [45]) (n : Nat) :
    ∃ s, (s = .it ∨ s = .ze) ∧ feed (JSONToVariant.callback F) (jc, d + 1, b) (decimalNat n) =
      some (inInteger s bc stack ((decimalNat n).reverse ++ jc.parseBuffer), d + 1, b) := by
  by_cases hn : n = 0
  · subst hn
    exact ⟨.ze, .inr rfl, by rcases hjc with rfl | rfl | rfl <;> rfl⟩
  · obtain ⟨m, hm, hm0, s, hdecimal, hs⟩ := exists_decimalNat hn
    have hfirst : jc.char (Parser.callback (JSONToVariant.callback F)) (d + 1, b) (UInt8.ofNat (48 + m)) =
        some (inInteger .it bc stack (UInt8.ofNat (48 + m) :: jc.parseBuffer), d + 1, b) := by
      rcases hjc with rfl | rfl | rfl <;> interval_cases m <;> first | rfl | exact absurd rfl hm0
    refine ⟨.it, .inl rfl, ?_⟩
    rw [hdecimal, feed_cons s hfirst (Nat.succ_ne_zero d), feed_digits hs, List.reverse_cons, List.append_assoc]
    rfl

private theorem feed_integer {i : Int} (hlow : -2 ^ 63 ≤ i) (hhigh : i < 2 ^ 63) {state : State}
    (hstate : state = .ar ∨ state = .va)
    (hadd : b.addValue (.number (F.ofInteger i)) = some b') :
    ∃ y, feed (JSONToVariant.callback F) (resting state bc stack, d + 1, b) (decimal i) = some y ∧
      Ready F bc stack (d + 1) b' y := by
  obtain ⟨s, hs, hfeed⟩ : ∃ s, (s = .it ∨ s = .ze) ∧ feed (JSONToVariant.callback F) (resting state bc stack, d + 1, b)
      (decimal i) = some (inInteger s bc stack (decimal i).reverse, d + 1, b) := by
    cases i with
    | ofNat n =>
      have hbuf : (decimalNat n).reverse ++ (resting state bc stack).parseBuffer = (decimalNat n).reverse :=
        List.append_nil _
      show ∃ s, _ ∧ feed _ _ (decimalNat n) = some (inInteger s bc stack (decimalNat n).reverse, d + 1, b)
      rw [← hbuf]
      exact feed_decimalNat (by rcases hstate with rfl | rfl <;> simp) n
    | negSucc n =>
      have hminus : (resting state bc stack).char (Parser.callback (JSONToVariant.callback F)) (d + 1, b) 45 =
          some (inInteger .mi bc stack [45], d + 1, b) := by
        rcases hstate with rfl | rfl <;> rfl
      rw [decimal, feed_cons _ hminus (Nat.succ_ne_zero d), List.reverse_cons]
      exact feed_decimalNat (.inr (.inr rfl)) (n + 1)
  refine ⟨_, hfeed, s, .integer, (decimal i).reverse, b, rfl, ?_, i, fun ws hws => ?_, hadd⟩
  · exact hs.elim (fun h => .inr (.inl h)) fun h => .inr (.inr (.inl h))
  · rw [List.reverse_append, List.reverse_reverse]
    refine scanInteger_decimal hlow hhigh fun c hc => hws c (List.mem_reverse.1 hc)

end Values

/-! ### Values -/

mutual
/-- What holds of each number and of each text, that is of each string and each key, in a value. -/
def Throughout {N : Type} (number : N → Prop) (text : List Byte → Prop) : Variant N → Prop
  | .number n => number n
  | .string s => text s
  | .array l => ThroughoutElements number text l
  | .object m => ThroughoutMembers number text m
  | _ => True

def ThroughoutElements {N : Type} (number : N → Prop) (text : List Byte → Prop) : List (Variant N) → Prop
  | [] => True
  | v :: l => Throughout number text v ∧ ThroughoutElements number text l

def ThroughoutMembers {N : Type} (number : N → Prop) (text : List Byte → Prop) : List (List Byte × Variant N) → Prop
  | [] => True
  | (k, v) :: m => text k ∧ Throughout number text v ∧ ThroughoutMembers number text m
end

theorem throughoutElements_iff {N : Type} {number : N → Prop} {text : List Byte → Prop} {l : List (Variant N)} :
    ThroughoutElements number text l ↔ ∀ v ∈ l, Throughout number text v := by
  induction l with
  | nil => simp [ThroughoutElements]
  | cons v l ih => rw [ThroughoutElements, ih, List.forall_mem_cons]

theorem throughoutMembers_iff {N : Type} {number : N → Prop} {text : List Byte → Prop} {m : List (List Byte × Variant N)} :
    ThroughoutMembers number text m ↔ ∀ e ∈ m, text e.1 ∧ Throughout number text e.2 := by
  induction m with
  | nil => simp [ThroughoutMembers]
  | cons e m ih => rw [ThroughoutMembers, ih, List.forall_mem_cons, and_assoc]

mutual
theorem Throughout.and {N : Type} {number number' : N → Prop} {text text' : List Byte → Prop} : ∀ v : Variant N,
    Throughout number text' v → Throughout number' text v → Throughout number text v
  | .null, _, _ | .bool _, _, _ => by simp [Throughout]
  | .number n, h, _ => by
    rw [Throughout] at h ⊢
    exact h
  | .string s, _, h => by
    rw [Throughout] at h ⊢
    exact h
  | .array l, h, h' => by
    rw [Throughout] at h h' ⊢
    exact ThroughoutElements.and l h h'
  | .object m, h, h' => by
    rw [Throughout] at h h' ⊢
    exact ThroughoutMembers.and m h h'

theorem ThroughoutElements.and {N : Type} {number number' : N → Prop} {text text' : List Byte → Prop} :
    ∀ l : List (Variant N), ThroughoutElements number text' l → ThroughoutElements number' text l →
      ThroughoutElements number text l
  | [], _, _ => by simp [ThroughoutElements]
  | v :: l, h, h' => by
    rw [ThroughoutElements] at h h' ⊢
    exact ⟨Throughout.and v h.1 h'.1, ThroughoutElements.and l h.2 h'.2⟩

theorem ThroughoutMembers.and {N : Type} {number number' : N → Prop} {text text' : List Byte → Prop} :
    ∀ m : List (List Byte × Variant N), ThroughoutMembers number text' m → ThroughoutMembers number' text m →
      ThroughoutMembers number text m
  | [], _, _ => by simp [ThroughoutMembers]
  | (k, v) :: m, h, h' => by
    rw [ThroughoutMembers] at h h' ⊢
    exact ⟨h'.1, Throughout.and v h.2.1 h'.2.1, ThroughoutMembers.and m h.2.2 h'.2.2⟩
end

def Int64 (i : Int) : Prop := -2 ^ 63 ≤ i ∧ i < 2 ^ 63

section Values

variable {N : Type} {F : Numbers N} {G : NumberFormat N} {pretty : Bool} {v : Variant N} {b b' : JSONToVariant N}
  {bc : State}
  {stack : List Mode} {d : Nat}

/-- The text of the value is read as the value, wherever a value may stand. -/
def Reads (F : Numbers N) (G : NumberFormat N) (pretty : Bool) (v : Variant N) : Prop :=
  ∀ (level : Nat) (state bc : State) (m : Mode) (stack : List Mode) (d : Nat) (b b' : JSONToVariant N),
    state = .ar ∨ state = .va → m = .array ∨ m = .object → b.addValue v = some b' →
      ∃ y, feed (JSONToVariant.callback F) (resting state bc (m :: stack), d + 1, b)
        (variantToJSON G pretty level v) = some y ∧ Ready F bc (m :: stack) (d + 1) b' y

private theorem reads_null : Reads F G pretty .null := by
  intro level state bc m stack d b b' hstate _ hadd
  refine ⟨(⟨.ok, bc, .null, false, false, true, 0, m :: stack, (bytes "null").reverse⟩, d + 1, b), ?_,
    ⟨.ok, .null, _, b, rfl, .inl rfl, hadd⟩⟩
  rw [variantToJSON] <;> first | simp | rcases hstate with rfl | rfl <;> rfl

private theorem reads_bool (x : Bool) : Reads F G pretty (.bool x) := by
  intro level state bc m stack d b b' hstate _ hadd
  cases x with
  | true =>
    refine ⟨(⟨.ok, bc, .true, false, false, true, 0, m :: stack, (bytes "true").reverse⟩, d + 1, b), ?_,
      ⟨.ok, .true, _, b, rfl, .inl rfl, hadd⟩⟩
    rw [variantToJSON] <;> first | simp | rcases hstate with rfl | rfl <;> rfl
  | false =>
    refine ⟨(⟨.ok, bc, .false, false, false, true, 0, m :: stack, (bytes "false").reverse⟩, d + 1, b), ?_,
      ⟨.ok, .false, _, b, rfl, .inl rfl, hadd⟩⟩
    rw [variantToJSON] <;> first | simp | rcases hstate with rfl | rfl <;> rfl

theorem reads_integer {i : Int} (hi : Int64 i) (htext : G.text (F.ofInteger i) = decimal i) :
    Reads F G pretty (.number (F.ofInteger i)) := by
  intro level state bc m stack d b b' hstate _ hadd
  have hwrite : variantToJSON G pretty level (.number (F.ofInteger i)) = decimal i := by
    rw [variantToJSON, ← htext]
    · rfl
    all_goals simp
  rw [hwrite]
  exact feed_integer hi.1 hi.2 hstate hadd

private theorem reads_string {s : List Byte} (hs : NulFree s) : Reads F G pretty (.string s) := by
  intro level state bc m stack d b b' hstate hm hadd
  rw [variantToJSON]
  exact ⟨_, feed_string hs hstate hm hadd, ready_resting⟩

/-! ### Arrays -/

theorem feed_elements (level : Nat) {keystack : List (List Byte)} {vs l l' : List (Variant N)}
    (hl : ∀ v ∈ l, Reads F G pretty v) {x : JSONParser × Nat × JSONToVariant N}
    (hx : Ready F bc (.array :: stack) (d + 1) ⟨keystack, .array l' :: vs⟩ x) :
    ∃ y, feed (JSONToVariant.callback F) x (elementsToJSON G pretty level false l) = some y ∧
      Ready F bc (.array :: stack) (d + 1) ⟨keystack, .array (l' ++ l) :: vs⟩ y := by
  induction l generalizing l' x with
  | nil =>
    rw [List.append_nil]
    exact ⟨x, by rw [elementsToJSON]; rfl, hx⟩
  | cons v l ih =>
    rw [List.forall_mem_cons] at hl
    have hspace : White ([32] ++ indent pretty level) :=
      White.append (fun c hc => .inl (List.mem_singleton.1 hc)) (white_indent pretty level)
    obtain ⟨y, hy, hready⟩ := hl.1 (u32 (level + 1)) .va bc .array stack d ⟨keystack, .array l' :: vs⟩
      ⟨keystack, .array (l' ++ [v]) :: vs⟩ (.inr rfl) (.inl rfl) rfl
    obtain ⟨z, hz, hready'⟩ := ih hl.2 hready
    rw [List.append_assoc] at hready'
    refine ⟨z, ?_, hready'⟩
    have htext : elementsToJSON G pretty level false (v :: l) = [44] ++ (([32] ++ indent pretty level) ++
        (variantToJSON G pretty (u32 (level + 1)) v ++ elementsToJSON G pretty level false l)) := by
      rw [elementsToJSON, List.append_assoc, ← List.append_assoc [44]]
      rfl
    rw [htext, feed_append hx.comma_array, feed_append (feed_white (.inr (.inl rfl)) hspace), feed_append hy, hz]

/-- An array up to its last bracket. -/
theorem feed_array (level n : Nat) (bc : State) (stack : List Mode) (d : Nat) {l : List (Variant N)}
    (hl : ∀ v ∈ l, Reads F G pretty v) {state : State} (hstate : state = .go ∨ state = .ar ∨ state = .va)
    (hadd : b.addValue (.array l) = some b') :
    ∃ y, feed (JSONToVariant.callback F) (resting state bc stack, d, b)
        (91 :: (elementsToJSON G pretty level true l ++ indent pretty n)) = some y ∧
      y.1.char (Parser.callback (JSONToVariant.callback F)) y.2 93 = some (resting .ok bc stack, d, b') := by
  have hopen : (resting state bc stack).char (Parser.callback (JSONToVariant.callback F)) (d, b) 91 =
      some (resting .ar bc (.array :: stack), d + 1, ⟨b.keystack, .array [] :: b.stack⟩) := by
    rcases hstate with rfl | rfl | rfl <;> rfl
  cases l with
  | nil =>
    refine ⟨(resting .ar bc (.array :: stack), d + 1, ⟨b.keystack, .array [] :: b.stack⟩), ?_, close_empty_array hadd⟩
    rw [feed_cons _ hopen (Nat.succ_ne_zero d), elementsToJSON, List.nil_append]
    exact feed_white (.inl rfl) (white_indent pretty n)
  | cons v l =>
    rw [List.forall_mem_cons] at hl
    obtain ⟨y, hy, hready⟩ := hl.1 (u32 (level + 1)) .ar bc .array stack d ⟨b.keystack, .array [] :: b.stack⟩
      ⟨b.keystack, .array [v] :: b.stack⟩ (.inl rfl) (.inl rfl) rfl
    obtain ⟨z, hz, hready'⟩ := feed_elements level hl.2 hready
    obtain ⟨w, hw, hready''⟩ := hready'.white (white_indent pretty n)
    refine ⟨w, ?_, hready''.close_array hadd⟩
    rw [feed_cons _ hopen (Nat.succ_ne_zero d), elementsToJSON, if_pos rfl, List.nil_append, List.append_assoc,
      feed_append (feed_white (.inl rfl) (white_indent pretty level)), List.append_assoc, feed_append hy, feed_append hz, hw]

private theorem reads_array {l : List (Variant N)} (hl : ∀ v ∈ l, Reads F G pretty v) : Reads F G pretty (.array l) := by
  intro level state bc m stack d b b' hstate _ hadd
  obtain ⟨y, hy, hclose⟩ := feed_array level (sub32 level 1) bc (m :: stack) (d + 1) hl (.inr hstate) hadd
  refine ⟨_, ?_, ready_resting⟩
  rw [variantToJSON, ← List.append_assoc, ← List.cons_append, feed_append hy, feed_cons [] hclose (Nat.succ_ne_zero d)]
  rfl

/-! ### Objects -/

/-- A member where a key may stand; the keys before it are less. -/
theorem feed_member (level : Nat) (bc : State) (stack : List Mode) (d : Nat) (keystack : List (List Byte))
    (vs : List (Variant N)) {m : List (List Byte × Variant N)} {k : List Byte} (hk : NulFree k) (hv : Reads F G pretty v)
    (hlt : ∀ e ∈ m, e.1 < k) {state : State} (hstate : state = .ob ∨ state = .ke) :
    ∃ y, feed (JSONToVariant.callback F) (resting state bc (.key :: stack), d + 1, ⟨keystack, .object m :: vs⟩)
        (insertString k ++ (objSep ++ variantToJSON G pretty level v)) = some y ∧
      Ready F bc (.object :: stack) (d + 1) ⟨keystack, .object (m ++ [(k, v)]) :: vs⟩ y := by
  have hkey : JSONToVariant.callback F ⟨keystack, .object m :: vs⟩ (.key k) =
      some ⟨k :: keystack, .object m :: vs⟩ := by
    rw [JSONToVariant.callback, cString_of_nulFree hk]
  have hadd : JSONToVariant.addValue ⟨k :: keystack, .object m :: vs⟩ v =
      some ⟨keystack, .object (m ++ [(k, v)]) :: vs⟩ := by
    have hnone : ((Variant.object m).member k).getType = .nullType := by
      rw [Variant.member_object, Dictionary.find_eq_none fun e he => (hlt e he).ne]
      rfl
    unfold JSONToVariant.addValue
    dsimp only
    rw [if_neg (not_not.2 hnone), Dictionary.insert_of_forall_lt hlt]
  obtain ⟨y, hy, hready⟩ := hv level .va bc .object stack d _ _ (.inr rfl) (.inr rfl) hadd
  refine ⟨y, ?_, hready⟩
  rw [← List.append_assoc, feed_append (feed_key hk hstate hkey), hy]

private theorem feed_members (level : Nat) {keystack : List (List Byte)} {vs : List (Variant N)}
    {m m' : List (List Byte × Variant N)} (hm : ∀ e ∈ m, NulFree e.1 ∧ Reads F G pretty e.2)
    (hsorted : Dictionary.Sorted (m' ++ m)) {x : JSONParser × Nat × JSONToVariant N}
    (hx : Ready F bc (.object :: stack) (d + 1) ⟨keystack, .object m' :: vs⟩ x) :
    ∃ y, feed (JSONToVariant.callback F) x (membersToJSON G pretty level false m) = some y ∧
      Ready F bc (.object :: stack) (d + 1) ⟨keystack, .object (m' ++ m) :: vs⟩ y := by
  induction m generalizing m' x with
  | nil =>
    rw [List.append_nil]
    exact ⟨x, by rw [membersToJSON]; rfl, hx⟩
  | cons e m ih =>
    obtain ⟨k, v⟩ := e
    rw [List.forall_mem_cons] at hm
    have hspace : White ([32] ++ indent pretty level) :=
      White.append (fun c hc => .inl (List.mem_singleton.1 hc)) (white_indent pretty level)
    have hlt : ∀ e ∈ m', e.1 < k := by
      unfold Dictionary.Sorted at hsorted
      rw [List.map_append, List.pairwise_append] at hsorted
      exact fun e he => hsorted.2.2 e.1 (List.mem_map_of_mem he) k (by simp)
    obtain ⟨y, hy, hready⟩ := feed_member (u32 (level + 1)) bc stack d keystack vs hm.1.1 hm.1.2 hlt (.inr rfl)
    obtain ⟨z, hz, hready'⟩ := ih hm.2 (by simpa using hsorted) hready
    rw [List.append_assoc] at hready'
    refine ⟨z, ?_, hready'⟩
    have htext : membersToJSON G pretty level false ((k, v) :: m) = [44] ++ (([32] ++ indent pretty level) ++
        ((insertString k ++ (objSep ++ variantToJSON G pretty (u32 (level + 1)) v)) ++
          membersToJSON G pretty level false m)) := by
      rw [membersToJSON]
      simp only [List.append_assoc]
      rfl
    rw [htext, feed_append hx.comma_object, feed_append (feed_white (.inr (.inr (.inr rfl))) hspace), feed_append hy, hz]

/-- An object up to its last brace. -/
theorem feed_object (level n : Nat) (bc : State) (stack : List Mode) (d : Nat) {m : List (List Byte × Variant N)}
    (hm : ∀ e ∈ m, NulFree e.1 ∧ Reads F G pretty e.2) (hsorted : Dictionary.Sorted m) {state : State}
    (hstate : state = .go ∨ state = .ar ∨ state = .va)
    (hadd : b.addValue (.object m) = some b') :
    ∃ y, feed (JSONToVariant.callback F) (resting state bc stack, d, b)
        (123 :: (membersToJSON G pretty level true m ++ indent pretty n)) = some y ∧
      y.1.char (Parser.callback (JSONToVariant.callback F)) y.2 125 = some (resting .ok bc stack, d, b') := by
  have hopen : (resting state bc stack).char (Parser.callback (JSONToVariant.callback F)) (d, b) 123 =
      some (resting .ob bc (.key :: stack), d + 1, ⟨b.keystack, .object [] :: b.stack⟩) := by
    rcases hstate with rfl | rfl | rfl <;> rfl
  cases m with
  | nil =>
    refine ⟨(resting .ob bc (.key :: stack), d + 1, ⟨b.keystack, .object [] :: b.stack⟩), ?_, close_empty_object hadd⟩
    rw [feed_cons _ hopen (Nat.succ_ne_zero d), membersToJSON, List.nil_append]
    exact feed_white (.inr (.inr (.inl rfl))) (white_indent pretty n)
  | cons e m =>
    obtain ⟨k, v⟩ := e
    rw [List.forall_mem_cons] at hm
    obtain ⟨y, hy, hready⟩ := feed_member (u32 (level + 1)) bc stack d b.keystack b.stack (m := []) hm.1.1 hm.1.2
      (fun e he => absurd he List.not_mem_nil) (.inl rfl)
    obtain ⟨z, hz, hready'⟩ := feed_members level hm.2 hsorted hready
    obtain ⟨w, hw, hready''⟩ := hready'.white (white_indent pretty n)
    refine ⟨w, ?_, hready''.close_object hadd⟩
    have htext : membersToJSON G pretty level true ((k, v) :: m) = indent pretty level ++
        ((insertString k ++ (objSep ++ variantToJSON G pretty (u32 (level + 1)) v)) ++
          membersToJSON G pretty level false m) := by
      rw [membersToJSON, if_pos rfl, List.nil_append]
      simp only [List.append_assoc]
    rw [feed_cons _ hopen (Nat.succ_ne_zero d), htext, List.append_assoc,
      feed_append (feed_white (.inr (.inr (.inl rfl))) (white_indent pretty level)), List.append_assoc, feed_append hy,
      feed_append hz, hw]

private theorem reads_object {m : List (List Byte × Variant N)} (hm : ∀ e ∈ m, NulFree e.1 ∧ Reads F G pretty e.2)
    (hsorted : Dictionary.Sorted m) : Reads F G pretty (.object m) := by
  intro level state bc m' stack d b b' hstate _ hadd
  obtain ⟨y, hy, hclose⟩ := feed_object level (sub32 level 1) bc (m' :: stack) (d + 1) hm hsorted (.inr hstate) hadd
  refine ⟨_, ?_, ready_resting⟩
  rw [variantToJSON, ← List.append_assoc, ← List.cons_append, feed_append hy, feed_cons [] hclose (Nat.succ_ne_zero d)]
  rfl

/-! ### Every value -/

section Every

variable {number : N → Prop}

mutual
/-- Every value whose numbers are read. -/
theorem reads_value (hnumber : ∀ n, number n → Reads F G pretty (.number n)) : ∀ v : Variant N, v.Proper →
    Throughout number NulFree v → Reads F G pretty v
  | .null, _, _ => reads_null
  | .bool x, _, _ => reads_bool x
  | .number n, _, h => by
    rw [Throughout] at h
    exact hnumber n h
  | .string s, _, h => by
    rw [Throughout] at h
    exact reads_string h
  | .array l, hp, h => by
    rw [Variant.Proper] at hp
    rw [Throughout] at h
    exact reads_array (reads_elements hnumber l hp h)
  | .object m, hp, h => by
    rw [Variant.Proper] at hp
    rw [Throughout] at h
    exact reads_object (reads_members hnumber m hp.2 h) hp.1

private theorem reads_elements (hnumber : ∀ n, number n → Reads F G pretty (.number n)) : ∀ l : List (Variant N),
    Variant.ProperElements l → ThroughoutElements number NulFree l → ∀ v ∈ l, Reads F G pretty v
  | [], _, _ => fun v hv => absurd hv List.not_mem_nil
  | v :: l, hp, h => by
    rw [Variant.ProperElements] at hp
    rw [ThroughoutElements] at h
    exact List.forall_mem_cons.2 ⟨reads_value hnumber v hp.1 h.1, reads_elements hnumber l hp.2 h.2⟩

private theorem reads_members (hnumber : ∀ n, number n → Reads F G pretty (.number n)) : ∀ m : List (List Byte × Variant N),
    Variant.ProperMembers m → ThroughoutMembers number NulFree m → ∀ e ∈ m, NulFree e.1 ∧ Reads F G pretty e.2
  | [], _, _ => fun e he => absurd he List.not_mem_nil
  | (k, v) :: m, hp, h => by
    rw [Variant.ProperMembers] at hp
    rw [ThroughoutMembers] at h
    exact List.forall_mem_cons.2 ⟨⟨h.1, reads_value hnumber v hp.1 h.2.1⟩, reads_members hnumber m hp.2 h.2.2⟩
end

end Every

end Values

/-! ### What the callbacks hold -/

section Callbacks

variable {N : Type} {F : Numbers N} {b b' : JSONToVariant N} {v : Variant N}

theorem nulFree_cString (s : List Byte) : NulFree (cString s) := by
  intro h
  have := List.mem_takeWhile_imp h
  exact absurd this (by decide)

/-- No text that the callbacks hold has a zero. -/
def Terminated (b : JSONToVariant N) : Prop :=
  (∀ k ∈ b.keystack, NulFree k) ∧ ∀ v ∈ b.stack, Throughout (fun _ => True) NulFree v

private theorem Terminated.addValue (h : Terminated b) (hv : Throughout (fun _ => True) NulFree v)
    (hadd : b.addValue v = some b') :
    Terminated b' := by
  obtain ⟨keystack, stack⟩ := b
  obtain ⟨hkeys, hstack⟩ := h
  dsimp only at hkeys hstack
  unfold JSONToVariant.addValue at hadd
  split at hadd
  · rename_i m stack' hm
    cases hm
    rw [List.forall_mem_cons] at hstack
    split at hadd
    · cases hadd
    · rename_i key keystack' hkey
      cases hkey
      rw [List.forall_mem_cons] at hkeys
      split_ifs at hadd with hnull
      cases hadd
      refine ⟨hkeys.2, List.forall_mem_cons.2 ⟨?_, hstack.2⟩⟩
      have hm := hstack.1
      rw [Throughout, throughoutMembers_iff] at hm ⊢
      intro e he
      rcases Dictionary.mem_insert he with rfl | he
      · exact ⟨hkeys.1, hv⟩
      · exact hm e he
  · rename_i l stack' hl
    cases hl
    cases hadd
    rw [List.forall_mem_cons] at hstack
    refine ⟨hkeys, List.forall_mem_cons.2 ⟨?_, hstack.2⟩⟩
    have hl := hstack.1
    rw [Throughout, throughoutElements_iff] at hl ⊢
    exact List.forall_mem_append.2 ⟨hl, List.forall_mem_singleton.2 hv⟩
  · cases hadd
    exact ⟨hkeys, List.forall_mem_cons.2 ⟨hv, hstack⟩⟩

private theorem Terminated.callback (h : Terminated b) {event : Event} (hcall : JSONToVariant.callback F b event = some b') :
    Terminated b' := by
  have hsimple (v : Variant N) (hv : v.getType ≠ .arrayType ∧ v.getType ≠ .objectType ∧ v.getType ≠ .stringType) :
      Throughout (fun _ => True) NulFree v := by
    cases v <;> simp_all [Throughout]
  cases event with
  | arrayBegin =>
    cases hcall
    exact ⟨h.1, List.forall_mem_cons.2 ⟨by simp [Throughout, ThroughoutElements], h.2⟩⟩
  | objectBegin =>
    cases hcall
    exact ⟨h.1, List.forall_mem_cons.2 ⟨by simp [Throughout, ThroughoutMembers], h.2⟩⟩
  | arrayEnd | objectEnd =>
    obtain ⟨keystack, stack⟩ := b
    simp only [JSONToVariant.callback] at hcall
    split at hcall
    · obtain ⟨hkeys, hstack⟩ := h
      rw [List.forall_mem_cons] at hstack
      refine Terminated.addValue ?_ hstack.1 hcall
      exact ⟨hkeys, hstack.2⟩
    · cases hcall
  | integer | float | null | true | false => exact h.addValue (hsimple _ (by simp)) hcall
  | key s =>
    simp only [JSONToVariant.callback] at hcall
    split at hcall
    · cases hcall
      exact ⟨List.forall_mem_cons.2 ⟨nulFree_cString s, h.1⟩, h.2⟩
    · cases hcall
  | string s =>
    refine h.addValue ?_ hcall
    rw [Throughout]
    exact nulFree_cString s

/-- A value that was read has no zero in its texts. -/
theorem throughout_of_variantFromJSON {json : List Byte} (h : variantFromJSON F json = .ok v) :
    Throughout (fun _ => True) NulFree v := by
  have hnew : Terminated (.new : JSONToVariant N) :=
    ⟨fun k hk => absurd hk List.not_mem_nil, fun v hv => absurd hv List.not_mem_nil⟩
  have hterminated : Terminated ((Parser.new .new).parseAll (JSONToVariant.callback F) json).1.derived :=
    Parser.parseAll_invariant (fun _ _ _ hb hcall => Terminated.callback hb hcall) hnew json
  unfold variantFromJSON at h
  dsimp only at h
  split at h
  · split at h
    · rename_i hstack
      cases h
      exact hterminated.2 v (hstack ▸ List.mem_cons_self)
    · cases h
  · cases h

/-- The text is done with its last character. -/
theorem variantFromJSON_of_char {cs : List Byte} {c : Byte} {y : JSONParser × Nat × JSONToVariant N}
    (hfeed : feed (JSONToVariant.callback F) (resting .go .go [.done], 0, JSONToVariant.new) cs = some y)
    (hchar : y.1.char (Parser.callback (JSONToVariant.callback F)) y.2 c = some (resting .ok .go [.done], 0, ⟨[], [v]⟩)) :
    variantFromJSON F (cs ++ [c]) = .ok v := by
  obtain ⟨p', hok, rfl, hparse⟩ := parseAll_of_feed (p := .new JSONToVariant.new) rfl hfeed [c]
  obtain ⟨q, hq, _, hderived, ⟨_, _, hdone⟩ | ⟨hstatus, _⟩⟩ := Parser.parse_of_some hok hchar
  · cases hdone rfl
  · have hlast : (p'.parseAll (JSONToVariant.callback F) [c]).1 = q := by
      rw [Parser.parseAll, hq]
      rfl
    unfold variantFromJSON
    rw [hparse, hlast, if_pos hstatus, hderived]

end Callbacks

/-! ### The round trip -/

/-- An array or an object whose numbers are read is read back. -/
theorem variantFromJSON_of_throughout {N : Type} {F : Numbers N} {G : NumberFormat N} {pretty : Bool} {number : N → Prop}
    (hnumber : ∀ n, number n → Reads F G pretty (.number n)) {v : Variant N}
    (hroot : v.getType = .arrayType ∨ v.getType = .objectType) (hproper : v.Proper) (hclean : Throughout number NulFree v) :
    variantFromJSON F (toJSON G pretty v) = .ok v := by
  cases v with
  | array l =>
    rw [Variant.Proper] at hproper
    rw [Throughout] at hclean
    obtain ⟨y, hy, hclose⟩ := feed_array (F := F) (b := .new) 1 (sub32 1 1) .go [.done] 0
      (reads_elements hnumber l hproper hclean) (.inl rfl) rfl
    rw [toJSON, variantToJSON, ← List.append_assoc, ← List.cons_append]
    exact variantFromJSON_of_char hy hclose
  | object m =>
    rw [Variant.Proper] at hproper
    rw [Throughout] at hclean
    obtain ⟨y, hy, hclose⟩ := feed_object (F := F) (b := .new) 1 (sub32 1 1) .go [.done] 0
      (reads_members hnumber m hproper.2 hclean) hproper.1 (.inl rfl) rfl
    rw [toJSON, variantToJSON, ← List.append_assoc, ← List.cons_append]
    exact variantFromJSON_of_char hy hclose
  | null | bool | number | string => simp at hroot

end ProcessNetwork.JSON
