import ProcessNetwork.Base64

/-!
# Base64 round trip

The encoder produces the radix 64 encoding of the bytes it is given, whichever way they are split into blocks
(`Encoded` is kept by every byte), and the decoder gets them back.  `DecodeValue` lets the byte `{` past its range test
and reads one cell behind its table; every other byte that is not a letter is skipped.
-/

namespace ProcessNetwork

open Radix64 (letter isLetter digits padding)

/-- A property of all bytes can be checked one by one. -/
instance decidableForallByte (p : Byte → Prop) [DecidablePred p] : Decidable (∀ b, p b) :=
  decidable_of_iff (∀ n : Fin 256, p (UInt8.ofNat n))
    ⟨fun h b => UInt8.ofNat_toNat (x := b) ▸ h ⟨b.toNat, b.toNat_lt⟩, fun h _ => h _⟩

private theorem toNat_or_of_lt {r b : Byte} {i k : Nat} (hr : r.toNat = k * 2 ^ i) (hb : b.toNat < 2 ^ i) :
    (r ||| b).toNat = r.toNat + b.toNat := by
  rw [UInt8.toNat_or, hr, ← Nat.shiftLeft_eq, Nat.shiftLeft_add_eq_or_of_lt hb]

/-! ### The encoder -/

namespace Base64Encoder

variable {e : Base64Encoder} {x got : List Byte} {c : Byte}

/-- What the masks and shifts of the encoder do to a byte, and what its table says. -/
theorem encoding_eq : ∀ c : Byte, (c.toNat < 64 → encodeValue c = letter c.toNat) ∧
    ((c &&& 0xfc) >>> 2).toNat = c.toNat / 4 ∧ ((c &&& 0x03) <<< 4).toNat = c.toNat % 4 * 16 ∧
    ((c &&& 0xf0) >>> 4).toNat = c.toNat / 16 ∧ ((c &&& 0x0f) <<< 2).toNat = c.toNat % 16 * 4 ∧
    ((c &&& 0xc0) >>> 6).toNat = c.toNat / 64 ∧ (c &&& 0x3f).toNat = c.toNat % 64 := by decide +kernel

private theorem encodeValue_eq (c : Byte) (h : c.toNat < 64) : encodeValue c = letter c.toNat := (encoding_eq c).1 h

private theorem high6 (c : Byte) : ((c &&& 0xfc) >>> 2).toNat = c.toNat / 4 := (encoding_eq c).2.1

private theorem low2 (c : Byte) : ((c &&& 0x03) <<< 4).toNat = c.toNat % 4 * 16 := (encoding_eq c).2.2.1

private theorem high4 (c : Byte) : ((c &&& 0xf0) >>> 4).toNat = c.toNat / 16 := (encoding_eq c).2.2.2.1

private theorem low4 (c : Byte) : ((c &&& 0x0f) <<< 2).toNat = c.toNat % 16 * 4 := (encoding_eq c).2.2.2.2.1

private theorem high2 (c : Byte) : ((c &&& 0xc0) >>> 6).toNat = c.toNat / 64 := (encoding_eq c).2.2.2.2.2.1

private theorem low6 (c : Byte) : (c &&& 0x3f).toNat = c.toNat % 64 := (encoding_eq c).2.2.2.2.2.2

private theorem letter_eq : ∀ n < 64, (letter n ≠ newline ∧ letter n ≠ 123 ∧ isLetter (letter n) = true) ∧
    ∃ i ∈ Base64Decoder.decodeIndex (letter n), i < 80 ∧ Base64Decoder.decoding.getD i 0 = n := by decide +kernel

private theorem letter_ne_newline (n : Nat) (h : n < 64) : letter n ≠ newline := (letter_eq n h).1.1

/-- The text without its line breaks. -/
def unbroken (l : List Byte) : List Byte := l.filter fun c => c ≠ newline

private theorem unbroken_append (l l' : List Byte) : unbroken (l ++ l') = unbroken l ++ unbroken l' := List.filter_append ..

private theorem unbroken_letter_cons {n : Nat} (hn : n < 64) (l : List Byte) :
    unbroken (letter n :: l) = letter n :: unbroken l :=
  List.filter_cons_of_pos (by simpa using letter_ne_newline n hn)

/-- What the encoder has made of the bytes `x`: the digits of whole groups, those of a group that is not finished, and
in `result` the bits that are left. -/
inductive Encoded : List Byte → EncoderStep → Byte → List Byte → Prop
  | stepA {g : List Byte} {result : Byte} (hg : g.length % 3 = 0) :
    Encoded g .stepA result ((digits g).map letter)
  | stepB {g : List Byte} {a result : Byte} (hg : g.length % 3 = 0) (hr : result.toNat = a.toNat % 4 * 16) :
    Encoded (g ++ [a]) .stepB result ((digits g).map letter ++ [letter (a.toNat / 4)])
  | stepC {g : List Byte} {a b result : Byte} (hg : g.length % 3 = 0) (hr : result.toNat = b.toNat % 16 * 4) :
    Encoded (g ++ [a, b]) .stepC result
      ((digits g).map letter ++ [letter (a.toNat / 4), letter (a.toNat % 4 * 16 + b.toNat / 16)])

/-- `endGroup` does nothing but break lines. -/
theorem endGroup_eq (e : Base64Encoder) : e.endGroup.step = e.step ∧ e.endGroup.result = e.result ∧
    e.endGroup.charsPerLine = e.charsPerLine ∧ unbroken e.endGroup.output = unbroken e.output := by
  unfold endGroup
  split_ifs
  · exact ⟨rfl, rfl, rfl, rfl⟩
  · dsimp only
    split_ifs
    · exact ⟨rfl, rfl, rfl, by rw [unbroken_append]; exact List.append_nil _⟩
    · exact ⟨rfl, rfl, rfl, rfl⟩

private theorem charsPerLine_encodeByte (e : Base64Encoder) (c : Byte) : (e.encodeByte c).charsPerLine = e.charsPerLine := by
  unfold encodeByte
  cases e.step with
  | stepA => rfl
  | stepB => rfl
  | stepC => exact (endGroup_eq _).2.2.1

/-- One byte more. -/
theorem Encoded.encodeByte (h : Encoded x e.step e.result (unbroken (got ++ e.output))) (c : Byte) :
    Encoded (x ++ [c]) (e.encodeByte c).step (e.encodeByte c).result (unbroken (got ++ (e.encodeByte c).output)) := by
  have hc := c.toNat_lt
  obtain ⟨step, charsPerLine, result, stepcount, output⟩ := e
  dsimp only at h
  have hone {n : Nat} (hn : n < 64) : unbroken [letter n] = [letter n] := unbroken_letter_cons hn []
  cases h' : step with
  | stepA =>
    subst h'
    generalize hp : unbroken (got ++ output) = p at h
    obtain ⟨hg⟩ := h
    -- the first six bits are a letter, the other two wait
    have hfirst : encodeValue ((c &&& 0xfc) >>> 2) = letter (c.toNat / 4) := by
      rw [encodeValue_eq _ (by rw [high6]; omega), high6]
    show Encoded (x ++ [c]) .stepB _ (unbroken (got ++ (output ++ [encodeValue _])))
    rw [← List.append_assoc, unbroken_append, hp, hfirst, hone (by omega)]
    exact .stepB hg (low2 c)
  | stepB =>
    subst h'
    generalize hp : unbroken (got ++ output) = p at h
    obtain _ | ⟨hg, hr⟩ | _ := h
    rename_i g a
    have ha := a.toNat_lt
    have hor : (result ||| (c &&& 0xf0) >>> 4).toNat = a.toNat % 4 * 16 + c.toNat / 16 := by
      rw [toNat_or_of_lt (i := 4) hr (by rw [high4]; omega), hr, high4]
    have hnext : encodeValue (result ||| (c &&& 0xf0) >>> 4) = letter (a.toNat % 4 * 16 + c.toNat / 16) := by
      rw [encodeValue_eq _ (by rw [hor]; omega), hor]
    show Encoded (g ++ [a] ++ [c]) .stepC _ (unbroken (got ++ (output ++ [encodeValue _])))
    rw [← List.append_assoc, unbroken_append, hp, hnext, hone (by omega), List.append_assoc, List.append_assoc]
    exact .stepC hg (low4 c)
  | stepC =>
    subst h'
    generalize hp : unbroken (got ++ output) = p at h
    obtain _ | _ | ⟨hg, hr⟩ := h
    rename_i g a b
    have hb := b.toNat_lt
    have hor : (result ||| (c &&& 0xc0) >>> 6).toNat = b.toNat % 16 * 4 + c.toNat / 64 := by
      rw [toNat_or_of_lt (i := 2) hr (by rw [high2]; omega), hr, high2]
    have hthird : encodeValue (result ||| (c &&& 0xc0) >>> 6) = letter (b.toNat % 16 * 4 + c.toNat / 64) := by
      rw [encodeValue_eq _ (by rw [hor]; omega), hor]
    have hfourth : encodeValue (c &&& 0x3f) = letter (c.toNat % 64) := by
      rw [encodeValue_eq _ (by rw [low6]; omega), low6]
    -- the group is complete; a line break may follow
    obtain ⟨hstep, hresult, -, hbroken⟩ := endGroup_eq ⟨.stepA, charsPerLine, c &&& 0x3f, stepcount,
      output ++ [encodeValue (result ||| (c &&& 0xc0) >>> 6), encodeValue (c &&& 0x3f)]⟩
    show Encoded (g ++ [a, b] ++ [c]) (endGroup _).step (endGroup _).result (unbroken (got ++ (endGroup _).output))
    rw [hstep, hresult, unbroken_append, hbroken, ← unbroken_append, ← List.append_assoc, unbroken_append, hp, hthird,
      hfourth, List.append_assoc]
    have hdigits : digits (g ++ [a, b, c]) = digits g ++ [a.toNat / 4, a.toNat % 4 * 16 + b.toNat / 16,
        b.toNat % 16 * 4 + c.toNat / 64, c.toNat % 64] := Radix64.digits_append hg _
    have hlast : unbroken [letter (b.toNat % 16 * 4 + c.toNat / 64), letter (c.toNat % 64)] =
        [letter (b.toNat % 16 * 4 + c.toNat / 64), letter (c.toNat % 64)] := by
      rw [unbroken_letter_cons (by omega), hone (by omega)]
    have htext : Encoded (g ++ [a, b, c]) .stepA (c &&& 0x3f) ((digits (g ++ [a, b, c])).map letter) :=
      .stepA (by simp; omega)
    rw [hdigits, List.map_append] at htext
    rw [hlast, List.append_assoc]
    exact htext

private theorem Encoded.encodeBlock (h : Encoded x e.step e.result (unbroken (got ++ e.output))) (datain : List Byte) :
    Encoded (x ++ datain) (e.encodeBlock datain).step (e.encodeBlock datain).result
      (unbroken (got ++ (e.encodeBlock datain).output)) := by
  induction datain generalizing e x with
  | nil => rwa [List.append_nil]
  | cons c datain ih =>
    have hnext := ih (h.encodeByte c)
    rwa [List.append_assoc] at hnext

private theorem charsPerLine_encodeBlock (e : Base64Encoder) (datain : List Byte) :
    (e.encodeBlock datain).charsPerLine = e.charsPerLine := by
  induction datain generalizing e with
  | nil => rfl
  | cons c datain ih => exact (ih _).trans (e.charsPerLine_encodeByte c)

/-- What some calls make of the bytes, whatever the blocks they come in. -/
theorem Encoded.run (calls : List Call) (h : Encoded x e.step e.result (unbroken (got ++ e.output))) :
    Encoded (x ++ calls.flatMap Call.data) (e.run calls).1.step (e.run calls).1.result
      (unbroken (got ++ (e.run calls).2 ++ (e.run calls).1.output)) ∧
    (e.run calls).1.charsPerLine = e.charsPerLine := by
  induction calls generalizing e x got with
  | nil =>
    simp only [List.flatMap_nil, List.append_nil, Base64Encoder.run]
    exact ⟨h, trivial⟩
  | cons call calls ih =>
    cases call with
    | encodeBlock datain =>
      have hnext := ih (h.encodeBlock datain)
      rw [charsPerLine_encodeBlock, List.append_assoc] at hnext
      exact hnext
    | getPartial =>
      have hnext := @ih { e with output := [] } x (got ++ e.output) (by rwa [List.append_nil])
      rw [List.append_assoc got] at hnext
      exact hnext

/-- The end of a block: what is still missing of the encoding. -/
theorem Encoded.blockEnd (h : Encoded x e.step e.result (unbroken (got ++ e.output))) :
    unbroken (got ++ e.blockEnd.2) = Radix64.encode x := by
  have hbreak (l : List Byte) : unbroken (if e.charsPerLine = 0 then l else l ++ [newline]) = unbroken l := by
    split_ifs
    · rfl
    · rw [unbroken_append]
      exact List.append_nil _
  show unbroken (got ++ if e.charsPerLine = 0 then _ else _) = _
  rw [unbroken_append, hbreak, ← unbroken_append]
  obtain ⟨step, charsPerLine, result, stepcount, output⟩ := e
  dsimp only at h ⊢
  generalize hp : unbroken (got ++ output) = p at h
  unfold Radix64.encode
  cases h with
  | stepA hg =>
    have hnil : padding x = [] := by
      have := Radix64.padding_append hg []
      rwa [List.append_nil] at this
    rw [hnil, List.append_nil]
    exact hp
  | @stepB g a _ hg hr =>
    have hdigits : digits (g ++ [a]) = digits g ++ [a.toNat / 4, a.toNat % 4 * 16] := Radix64.digits_append hg _
    have hlast : encodeValue result = letter (a.toNat % 4 * 16) := by
      rw [encodeValue_eq _ (by omega), hr]
    have hpad : unbroken [61, 61] = [61, 61] := by decide
    rw [Radix64.padding_append hg, hdigits, ← List.append_assoc, unbroken_append, hp, hlast,
      unbroken_letter_cons (by omega), hpad]
    simp [padding, Radix64.pad]
  | @stepC g a b _ hg hr =>
    have hdigits : digits (g ++ [a, b]) = digits g ++ [a.toNat / 4, a.toNat % 4 * 16 + b.toNat / 16, b.toNat % 16 * 4] :=
      Radix64.digits_append hg _
    have hlast : encodeValue result = letter (b.toNat % 16 * 4) := by
      rw [encodeValue_eq _ (by omega), hr]
    have hpad : unbroken [61] = [61] := by decide
    rw [Radix64.padding_append hg, hdigits, ← List.append_assoc, unbroken_append, hp, hlast,
      unbroken_letter_cons (by omega), hpad]
    simp [padding, Radix64.pad]

end Base64Encoder

/-! ### The decoder -/

namespace Base64Decoder

variable {d : Base64Decoder} {past : Int} {c : Byte}

private theorem decodeIndex_eq : ∀ c : Byte, ((∃ i ∈ decodeIndex c, 80 ≤ i) ↔ c = 123) ∧
    (isLetter c = false → c ≠ 123 → ∀ i ∈ decodeIndex c, decoding.getD i 0 < 0) := by decide +kernel

/-- The byte `{` is the only one that is looked up behind the table. -/
theorem decodeIndex_le (c : Byte) : (∃ i ∈ decodeIndex c, 80 ≤ i) ↔ c = 123 := (decodeIndex_eq c).1

private theorem decodeIndex_of_not_isLetter (c : Byte) (h : isLetter c = false) (hbrace : c ≠ 123) :
    ∀ i ∈ decodeIndex c, decoding.getD i 0 < 0 := (decodeIndex_eq c).2 h hbrace

private theorem decodeIndex_letter (n : Nat) (h : n < 64) : ∃ i ∈ decodeIndex (letter n), i < 80 ∧ decoding.getD i 0 = n :=
  (Base64Encoder.letter_eq n h).2

private theorem isLetter_letter (n : Nat) (h : n < 64) : isLetter (letter n) = true := (Base64Encoder.letter_eq n h).1.2.2

private theorem getD_decoding {i : Nat} (h : i < 80) (past : Int) : decoding.getD i past = decoding.getD i 0 := by
  have hlt : i < decoding.length := h
  simp only [List.getD_eq_getElem?_getD, List.getElem?_eq_getElem hlt, Option.getD_some]

/-- A byte that is not a letter is skipped. -/
theorem decodeByte_skip (hc : isLetter c = false) (hne : c ≠ 123) : d.decodeByte past c = d := by
  refine if_pos ?_
  unfold decodeValue
  cases hi : decodeIndex c with
  | none => exact Int.negSucc_lt_zero 0
  | some i =>
    have hlt : i < 80 := by
      by_contra h
      exact hne ((decodeIndex_le c).1 ⟨i, hi, Nat.le_of_not_lt h⟩)
    dsimp only
    rw [getD_decoding hlt]
    exact decodeIndex_of_not_isLetter c hc hne i hi

private theorem decodeByte_letter {n : Nat} (hn : n < 64) :
    d.decodeByte past (letter n) = d.decodeFragment (UInt8.ofNat n) := by
  obtain ⟨i, hi, hlt, hvalue⟩ := decodeIndex_letter n hn
  have hfragment : decodeValue past (letter n) = n := by
    unfold decodeValue
    rw [hi]
    dsimp only
    rw [getD_decoding hlt, hvalue]
  unfold decodeByte
  rw [hfragment]
  exact if_neg (Int.not_lt.2 (Int.natCast_nonneg n))

private theorem decodeBlock_append (codein codein' : List Byte) :
    d.decodeBlock past (codein ++ codein') = (d.decodeBlock past codein).decodeBlock past codein' :=
  List.foldl_append

/-- Everything that is not a letter is skipped, if there is no `{`. -/
theorem decodeBlock_filter {t : List Byte} (h : 123 ∉ t) :
    d.decodeBlock past t = d.decodeBlock past (t.filter isLetter) := by
  induction t generalizing d with
  | nil => rfl
  | cons c t ih =>
    have hrest := fun d => ih (d := d) fun hm => h (List.mem_cons_of_mem _ hm)
    cases hc : isLetter c with
    | true =>
      rw [List.filter_cons_of_pos hc]
      exact hrest _
    | false =>
      rw [List.filter_cons_of_neg (by rw [hc]; simp), ← hrest]
      exact congrArg (fun d => decodeBlock past d t) (decodeByte_skip hc fun he => h (he ▸ List.mem_cons_self))

/-- What the decoder makes of a text, in whichever blocks it comes, it makes of the letters of the text, and it reads its
table only where it has cells. -/
def Ignores (t : List Byte) : Prop :=
  ∀ past (blocks : List (List Byte)), blocks.flatten = t →
    (∀ d : Base64Decoder,
      (blocks.foldl (decodeBlock past) d).output = (d.decodeBlock past (t.filter isLetter)).output) ∧
    ∀ block ∈ blocks, ∀ c ∈ block, ∀ i ∈ decodeIndex c, i < decoding.length

private theorem foldl_decodeBlock (blocks : List (List Byte)) :
    blocks.foldl (decodeBlock past) d = d.decodeBlock past blocks.flatten := by
  induction blocks generalizing d with
  | nil => rfl
  | cons block blocks ih =>
    rw [List.flatten_cons, decodeBlock_append]
    exact ih

theorem ignores_iff (t : List Byte) : Ignores t ↔ 123 ∉ t := by
  constructor
  · intro h hmem
    obtain ⟨i, hi, hle⟩ := (decodeIndex_le 123).2 rfl
    exact absurd ((h 0 [t] (List.append_nil t)).2 t List.mem_cons_self 123 hmem i hi) (Nat.not_lt.2 hle)
  · rintro hmem past blocks rfl
    refine ⟨fun d => by rw [foldl_decodeBlock, decodeBlock_filter hmem], fun block hblock c hc i hi => ?_⟩
    by_contra hle
    have hbrace := (decodeIndex_le c).1 ⟨i, hi, Nat.le_of_not_lt hle⟩
    exact hmem (List.mem_flatten.2 ⟨block, hblock, hbrace ▸ hc⟩)

/-- A `{` is looked up at 80, in a table of 80 cells. -/
theorem not_ignores_brace : ¬ Ignores [123] := by
  intro h
  exact absurd ((h 0 [[123]] rfl).2 [123] List.mem_cons_self 123 List.mem_cons_self 80 (by decide)) (by decide)

/-! ### Back to the bytes -/

/-- What the masks and shifts of the decoder do to a value of a letter. -/
theorem decoding_eq : ∀ n < 64, ((UInt8.ofNat n &&& 0x3f) <<< 2).toNat = n * 4 ∧
    ((UInt8.ofNat n &&& 0x30) >>> 4).toNat = n / 16 ∧ ((UInt8.ofNat n &&& 0x0f) <<< 4).toNat = n % 16 * 16 ∧
    ((UInt8.ofNat n &&& 0x3c) >>> 2).toNat = n / 4 ∧ ((UInt8.ofNat n &&& 0x03) <<< 6).toNat = n % 4 * 64 ∧
    (UInt8.ofNat n &&& 0x3f).toNat = n := by decide +kernel

private theorem bits1 (n : Nat) (h : n < 64) : ((UInt8.ofNat n &&& 0x3f) <<< 2).toNat = n * 4 := (decoding_eq n h).1

private theorem bits2 (n : Nat) (h : n < 64) : ((UInt8.ofNat n &&& 0x30) >>> 4).toNat = n / 16 := (decoding_eq n h).2.1

private theorem bits3 (n : Nat) (h : n < 64) :
    ((UInt8.ofNat n &&& 0x0f) <<< 4).toNat = n % 16 * 16 := (decoding_eq n h).2.2.1

private theorem bits4 (n : Nat) (h : n < 64) : ((UInt8.ofNat n &&& 0x3c) >>> 2).toNat = n / 4 := (decoding_eq n h).2.2.2.1

private theorem bits5 (n : Nat) (h : n < 64) :
    ((UInt8.ofNat n &&& 0x03) <<< 6).toNat = n % 4 * 64 := (decoding_eq n h).2.2.2.2.1

private theorem bits6 (n : Nat) (h : n < 64) : (UInt8.ofNat n &&& 0x3f).toNat = n := (decoding_eq n h).2.2.2.2.2

private theorem first_byte {a : Byte} {n : Nat} (hn : n = a.toNat % 4 * 16 + n % 16) :
    (UInt8.ofNat (a.toNat / 4) &&& 0x3f) <<< 2 ||| (UInt8.ofNat n &&& 0x30) >>> 4 = a := by
  have ha := a.toNat_lt
  have h1 := bits1 (a.toNat / 4) (by omega)
  have h2 := bits2 n (by omega)
  refine UInt8.toNat_inj.1 ?_
  rw [toNat_or_of_lt (i := 2) h1 (by omega)]
  omega

private theorem second_byte {b : Byte} {m n : Nat} (hm : m % 16 = b.toNat / 16) (hm' : m < 64)
    (hn : n = b.toNat % 16 * 4 + n % 4) :
    (UInt8.ofNat m &&& 0x0f) <<< 4 ||| (UInt8.ofNat n &&& 0x3c) >>> 2 = b := by
  have hb := b.toNat_lt
  have h1 := bits3 m hm'
  have h2 := bits4 n (by omega)
  refine UInt8.toNat_inj.1 ?_
  rw [toNat_or_of_lt (i := 4) h1 (by omega)]
  omega

private theorem third_byte {c : Byte} {m : Nat} (hm : m % 4 = c.toNat / 64) (hm' : m < 64) :
    (UInt8.ofNat m &&& 0x03) <<< 6 ||| UInt8.ofNat (c.toNat % 64) &&& 0x3f = c := by
  have hc := c.toNat_lt
  have h1 := bits5 m hm'
  have h2 := bits6 (c.toNat % 64) (by omega)
  refine UInt8.toNat_inj.1 ?_
  rw [toNat_or_of_lt (i := 6) h1 (by omega)]
  omega

/-- The letters of an encoding are decoded to the bytes. -/
theorem decodeBlock_digits (x : List Byte) (hd : d.step = .stepA) :
    (d.decodeBlock past ((digits x).map letter)).output = d.output ++ x := by
  obtain ⟨step, currchar, output⟩ := d
  subst hd
  induction x using ProcessNetwork.Radix64.digits.induct generalizing currchar output with
  | case1 => exact (List.append_nil _).symm
  | case2 a =>
    have ha := a.toNat_lt
    simp only [digits, List.map_cons, List.map_nil, decodeBlock, List.foldl_cons, List.foldl_nil]
    rw [decodeByte_letter (by omega), decodeByte_letter (by omega)]
    simp only [decodeFragment]
    rw [first_byte (by omega)]
  | case3 a b =>
    have ha := a.toNat_lt
    have hb := b.toNat_lt
    simp only [digits, List.map_cons, List.map_nil, decodeBlock, List.foldl_cons, List.foldl_nil]
    rw [decodeByte_letter (by omega), decodeByte_letter (by omega), decodeByte_letter (by omega)]
    simp only [decodeFragment]
    rw [first_byte (by omega), second_byte (b := b) (by omega) (by omega) (by omega), List.append_assoc]
    rfl
  | case4 a b c l ih =>
    have ha := a.toNat_lt
    have hb := b.toNat_lt
    have hc := c.toNat_lt
    simp only [digits, List.map_cons, decodeBlock, List.foldl_cons] at ih ⊢
    rw [decodeByte_letter (by omega), decodeByte_letter (by omega), decodeByte_letter (by omega),
      decodeByte_letter (by omega)]
    simp only [decodeFragment]
    rw [ih, first_byte (by omega), second_byte (b := b) (by omega) (by omega) (by omega),
      third_byte (c := c) (by omega) (by omega)]
    simp

/-- `GetPartial` only hands out what there is. -/
theorem decodeFragment_output (d : Base64Decoder) (o : List Byte) (fragment : Byte) :
    decodeFragment { d with output := o ++ d.output } fragment =
      { d.decodeFragment fragment with output := o ++ (d.decodeFragment fragment).output } := by
  obtain ⟨step, currchar, output⟩ := d
  cases step <;> simp [decodeFragment]

private theorem decodeBlock_output (d : Base64Decoder) (o t : List Byte) :
    decodeBlock past { d with output := o ++ d.output } t =
      { d.decodeBlock past t with output := o ++ (d.decodeBlock past t).output } := by
  induction t generalizing d with
  | nil => rfl
  | cons c t ih =>
    have hstep : decodeByte past { d with output := o ++ d.output } c =
        { d.decodeByte past c with output := o ++ (d.decodeByte past c).output } := by
      unfold decodeByte
      dsimp only
      split_ifs
      · rfl
      · exact decodeFragment_output d o _
    exact (congrArg (fun d => decodeBlock past d t) hstep).trans (ih _)

private theorem run_eq (calls : List Call) (d : Base64Decoder) :
    { (d.run past calls).1 with output := (d.run past calls).2 ++ (d.run past calls).1.output } =
      d.decodeBlock past (calls.flatMap Call.data) := by
  induction calls generalizing d with
  | nil => rfl
  | cons call calls ih =>
    cases call with
    | decodeBlock codein =>
      rw [List.flatMap_cons, decodeBlock_append]
      exact ih _
    | getPartial =>
      have hrest := ih { d with output := [] }
      have hout := @decodeBlock_output past { d with output := [] } d.output (calls.flatMap Call.data)
      rw [← hrest] at hout
      simp only [List.append_nil] at hout
      rw [List.flatMap_cons]
      show _ = d.decodeBlock past (calls.flatMap Call.data)
      rw [show d = { d with output := d.output } from rfl, hout]
      simp only [Base64Decoder.run, Base64Decoder.getPartial, List.append_assoc]

end Base64Decoder

/-! ### The round trip -/

theorem Base64Encoder.encode_block (cpl : Nat) (calls : List Base64Encoder.Call) :
    Base64Encoder.unbroken ((Base64Encoder.create cpl).block calls).2 =
      Radix64.encode (calls.flatMap Base64Encoder.Call.data) ∧
    ((Base64Encoder.create cpl).block calls).1 = Base64Encoder.create cpl := by
  have hstart : Base64Encoder.Encoded [] (Base64Encoder.create cpl).step (Base64Encoder.create cpl).result
      (Base64Encoder.unbroken ([] ++ (Base64Encoder.create cpl).output)) := .stepA rfl
  obtain ⟨hrun, hcpl⟩ := hstart.run calls
  refine ⟨hrun.blockEnd, ?_⟩
  show Base64Encoder.reset _ = _
  unfold Base64Encoder.reset
  rw [hcpl]
  rfl

private theorem Base64Decoder.decode_block {past : Int} (calls : List Base64Decoder.Call) :
    (Base64Decoder.create.block past calls).2 =
      (Base64Decoder.create.decodeBlock past (calls.flatMap Base64Decoder.Call.data)).output :=
  congrArg Base64Decoder.output (Base64Decoder.run_eq calls Base64Decoder.create)

private theorem letters_of_text {t x : List Byte} (ht : Base64Encoder.unbroken t = Radix64.encode x) :
    t.filter isLetter = (digits x).map letter ∧ 123 ∉ t := by
  have hmem {c : Byte} (hc : c ∈ t) (hne : c ≠ newline) : (∃ n < 64, letter n = c) ∨ c = Radix64.pad := by
    have henc : c ∈ Radix64.encode x := ht ▸ List.mem_filter.2 ⟨hc, by simpa using hne⟩
    rcases List.mem_append.1 henc with hd | hp
    · obtain ⟨n, hn, rfl⟩ := List.mem_map.1 hd
      exact .inl ⟨n, Radix64.digits_lt hn, rfl⟩
    · exact .inr (Radix64.eq_pad_of_mem_padding hp)
  constructor
  · have hfilter : t.filter isLetter = (Base64Encoder.unbroken t).filter isLetter := by
      rw [Base64Encoder.unbroken, List.filter_filter]
      refine List.filter_congr fun c _ => ?_
      by_cases hc : c = newline
      · subst hc
        decide
      · simp [hc]
    have hdigits : ((digits x).map letter).filter isLetter = (digits x).map letter := by
      refine List.filter_eq_self.2 fun c hc => ?_
      obtain ⟨n, hn, rfl⟩ := List.mem_map.1 hc
      exact Base64Decoder.isLetter_letter n (Radix64.digits_lt hn)
    have hpadding : (padding x).filter isLetter = [] := by
      refine List.filter_eq_nil_iff.2 fun c hc => ?_
      rw [Radix64.eq_pad_of_mem_padding hc]
      decide
    rw [hfilter, ht, Radix64.encode, List.filter_append, hdigits, hpadding, List.append_nil]
  · intro hbrace
    rcases hmem hbrace (by decide) with ⟨n, hn, heq⟩ | heq
    · exact (Base64Encoder.letter_eq n hn).1.2.1 heq
    · cases heq

/-- The text of a block is the encoding of its bytes with line breaks in it, the decoder gets the bytes back from it, and
both are then ready for the next block. -/
theorem base64_round_trip (cpl : Nat) (calls : List Base64Encoder.Call) :
    Base64Encoder.unbroken ((Base64Encoder.create cpl).block calls).2 =
      Radix64.encode (calls.flatMap Base64Encoder.Call.data) ∧
    ((Base64Encoder.create cpl).block calls).1 = Base64Encoder.create cpl ∧
    ∀ past (back : List Base64Decoder.Call),
      back.flatMap Base64Decoder.Call.data = ((Base64Encoder.create cpl).block calls).2 →
      (Base64Decoder.create.block past back).2 = calls.flatMap Base64Encoder.Call.data ∧
      (Base64Decoder.create.block past back).1 = Base64Decoder.create := by
  obtain ⟨htext, hend⟩ := Base64Encoder.encode_block cpl calls
  refine ⟨htext, hend, fun past back hback => ⟨?_, rfl⟩⟩
  obtain ⟨hletters, hbrace⟩ := letters_of_text htext
  rw [Base64Decoder.decode_block, hback, Base64Decoder.decodeBlock_filter hbrace, hletters,
    Base64Decoder.decodeBlock_digits _ rfl]
  rfl

theorem base64_round_trip_lines :
    (Base64Decoder.create.block 0 [.decodeBlock (bytes "Zm9v\nYmF"), .getPartial, .decodeBlock (bytes "y\nYQ==\n")]).2 =
      bytes "foobara" :=
  ((base64_round_trip 4 [.encodeBlock (bytes "foob"), .getPartial, .encodeBlock (bytes "ara")]).2.2 0 _
    (by decide +kernel)).1

end ProcessNetwork
