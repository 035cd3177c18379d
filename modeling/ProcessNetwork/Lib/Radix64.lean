import Mathlib.Tactic

/-!
# Radix 64

The encoding of bytes by letters of an alphabet of 64: three bytes are four digits of six bits, the first bits first, and
at the end one byte is two digits and two bytes are three, filled up with zero bits and with the padding letter.  The
alphabet is `A-Z a-z 0-9 + /` and the padding letter is `=`.
-/

namespace ProcessNetwork.Radix64

/-- The letter of a digit. -/
def letter (n : Nat) : UInt8 :=
  if n < 26 then UInt8.ofNat (65 + n)
  else if n < 52 then UInt8.ofNat (97 + (n - 26))
  else if n < 62 then UInt8.ofNat (48 + (n - 52))
  else if n = 62 then 43
  else 47

/-- The letters of the alphabet. -/
def isLetter (c : UInt8) : Bool :=
  (65 ≤ c && c ≤ 90) || (97 ≤ c && c ≤ 122) || (48 ≤ c && c ≤ 57) || c == 43 || c == 47

def pad : UInt8 := 61

/-- The digits of a list of bytes. -/
def digits : List UInt8 → List Nat
  | [] => []
  | [a] => [a.toNat / 4, a.toNat % 4 * 16]
  | [a, b] => [a.toNat / 4, a.toNat % 4 * 16 + b.toNat / 16, b.toNat % 16 * 4]
  | a :: b :: c :: l =>
    a.toNat / 4 :: (a.toNat % 4 * 16 + b.toNat / 16) :: (b.toNat % 16 * 4 + c.toNat / 64) :: c.toNat % 64 :: digits l

def padding : List UInt8 → List UInt8
  | [] => []
  | [_] => [pad, pad]
  | [_, _] => [pad]
  | _ :: _ :: _ :: l => padding l

def encode (l : List UInt8) : List UInt8 := (digits l).map letter ++ padding l

theorem digits_append {l : List UInt8} (h : l.length % 3 = 0) (l' : List UInt8) :
    digits (l ++ l') = digits l ++ digits l' := by
  induction l using digits.induct with
  | case1 => rfl
  | case2 a => simp at h
  | case3 a b => simp at h
  | case4 a b c l ih =>
    have hl : l.length % 3 = 0 := by
      simp only [List.length_cons] at h
      omega
    simp only [List.cons_append, digits, ih hl]

theorem padding_append {l : List UInt8} (h : l.length % 3 = 0) (l' : List UInt8) : padding (l ++ l') = padding l' := by
  induction l using digits.induct with
  | case1 => rfl
  | case2 a => simp at h
  | case3 a b => simp at h
  | case4 a b c l ih =>
    have hl : l.length % 3 = 0 := by
      simp only [List.length_cons] at h
      omega
    simp only [List.cons_append, padding, ih hl]

theorem digits_lt {l : List UInt8} {n : Nat} (h : n ∈ digits l) : n < 64 := by
  induction l using digits.induct with
  | case1 => cases h
  | case2 a =>
    have := a.toNat_lt
    simp only [digits, List.mem_cons, List.not_mem_nil, or_false] at h
    omega
  | case3 a b =>
    have := a.toNat_lt
    have := b.toNat_lt
    simp only [digits, List.mem_cons, List.not_mem_nil, or_false] at h
    omega
  | case4 a b c l ih =>
    have := a.toNat_lt
    have := b.toNat_lt
    have := c.toNat_lt
    simp only [digits, List.mem_cons] at h
    rcases h with h | h | h | h | h
    · omega
    · omega
    · omega
    · omega
    · exact ih h

theorem eq_pad_of_mem_padding {l : List UInt8} {c : UInt8} (h : c ∈ padding l) : c = pad := by
  induction l using digits.induct with
  | case1 => cases h
  | case2 a => simpa [padding] using h
  | case3 a b => simpa [padding] using h
  | case4 a b c l ih => exact ih h

end ProcessNetwork.Radix64
