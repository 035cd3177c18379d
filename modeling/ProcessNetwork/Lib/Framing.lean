import Mathlib.Tactic

/-!
# Packets on a byte channel

What is in flight on a channel is a list of items: the header of a packet, as one item, and then the bytes of its
payload.  The length of the payload is a function of the header.  A cursor is a position in such a stream, between two
packets or inside the payload of one.  The two ends of the channel have one cursor each, and the items between them
lead from the one to the other (`scan`).

`payload` picks bytes by their packet and position, so that a stream of packets can be compared with a list of bytes
while a packet is sent or received, and `total` adds up what the headers say.
-/

namespace ProcessNetwork

/-- An item of a stream of packets. -/
inductive Item (H B : Type)
  | header (h : H)
  | byte (b : B)
  deriving DecidableEq, Repr

/-- A position in a stream of packets: between packets, or before byte `k` of the payload of `h`. -/
inductive Cursor (H : Type)
  | idle
  | inside (h : H) (k : Nat)
  deriving DecidableEq, Repr

namespace Framing

variable {H B : Type} {len : H → Nat} {pick : H → Nat → Bool} {w : H → Nat} {c c' : Cursor H} {xs ys : List (Item H B)}

/-- The position after `k` bytes of the payload of `h`. -/
def place (len : H → Nat) (h : H) (k : Nat) : Cursor H := if k < len h then .inside h k else .idle

/-- The position after some items, unless a header comes inside a payload or a byte outside. -/
def scan (len : H → Nat) : Cursor H → List (Item H B) → Option (Cursor H)
  | c, [] => some c
  | .idle, .header h :: xs => scan len (place len h 0) xs
  | .inside h k, .byte _ :: xs => scan len (place len h (k + 1)) xs
  | _, _ :: _ => none

/-- The bytes that `pick` chooses. -/
def payload (len : H → Nat) (pick : H → Nat → Bool) : Cursor H → List (Item H B) → List B
  | _, [] => []
  | .inside h k, .byte b :: xs => (if pick h k then [b] else []) ++ payload len pick (place len h (k + 1)) xs
  | .idle, .byte _ :: xs => payload len pick .idle xs
  | _, .header h :: xs => payload len pick (place len h 0) xs

/-- The sum of a number over the headers. -/
def total (w : H → Nat) : List (Item H B) → Nat
  | [] => 0
  | .header h :: xs => w h + total w xs
  | .byte _ :: xs => total w xs

/-- The packets of a stream, without their payloads. -/
def headers : List (Item H B) → List H
  | [] => []
  | .header h :: xs => h :: headers xs
  | .byte _ :: xs => headers xs

theorem headers_append (xs ys : List (Item H B)) : headers (xs ++ ys) = headers xs ++ headers ys := by
  induction xs with
  | nil => rfl
  | cons x xs ih => cases x <;> simp [headers, ih]

theorem headers_map (ps : List H) : headers (ps.map (.header : H → Item H B)) = ps := by
  induction ps with
  | nil => rfl
  | cons p ps ih => rw [List.map_cons, headers, ih]

theorem mem_headers {p : H} : p ∈ headers xs ↔ .header p ∈ xs := by
  induction xs with
  | nil => simp [headers]
  | cons x xs ih => cases x <;> simp [headers, ih]

theorem total_eq_sum_headers : total w xs = ((headers xs).map w).sum := by
  induction xs with
  | nil => rfl
  | cons x xs ih => cases x <;> simp [total, headers, ih]

theorem scan_append (c : Cursor H) (xs ys : List (Item H B)) :
    scan len c (xs ++ ys) = (scan len c xs).bind fun c => scan len c ys := by
  induction xs generalizing c with
  | nil => rfl
  | cons x xs ih => cases x <;> cases c <;> simp [scan, ih]

/-- Packets without a payload. -/
theorem scan_headers {ps : List H} (h : ∀ p ∈ ps, len p = 0) :
    scan len .idle (ps.map (.header : H → Item H B)) = some .idle := by
  induction ps with
  | nil => rfl
  | cons p ps ih =>
    rw [List.map_cons, scan, place, h p List.mem_cons_self, if_neg (Nat.lt_irrefl 0)]
    exact ih fun p hp => h p (List.mem_cons_of_mem _ hp)

theorem payload_headers {ps : List H} (h : ∀ p ∈ ps, len p = 0) :
    payload len pick .idle (ps.map (.header : H → Item H B)) = [] := by
  induction ps with
  | nil => rfl
  | cons p ps ih =>
    rw [List.map_cons, payload, place, h p List.mem_cons_self, if_neg (Nat.lt_irrefl 0)]
    exact ih fun p hp => h p (List.mem_cons_of_mem _ hp)

theorem payload_append (h : scan len c xs = some c') (ys : List (Item H B)) :
    payload len pick c (xs ++ ys) = payload len pick c xs ++ payload len pick c' ys := by
  induction xs generalizing c with
  | nil => simp_all [scan, payload]
  | cons x xs ih =>
    cases x <;> cases c <;> simp only [scan, reduceCtorEq] at h
    · simp only [List.cons_append, payload, ih h]
    · simp only [List.cons_append, payload, ih h, List.append_assoc]

theorem total_append (xs ys : List (Item H B)) : total w (xs ++ ys) = total w xs + total w ys := by
  induction xs with
  | nil => simp [total]
  | cons x xs ih => cases x <;> simp [total, ih, Nat.add_assoc]

/-- The position of byte `n` of a payload with `m` bytes per channel, seen from channel `c`. -/
theorem channel_cases {m : Nat} (hm : 0 < m) (c n : Nat) :
    c = n / m ∧ n - c * m = n % m ∧ n + 1 - c * m = n % m + 1 ∧ n % m < m ∨
    c ≠ n / m ∧ m ≤ n - c * m ∧ m ≤ n + 1 - c * m ∨
    c ≠ n / m ∧ n - c * m = 0 ∧ n + 1 - c * m = 0 := by
  have hn := Nat.div_add_mod n m
  have hlt := Nat.mod_lt n hm
  rw [Nat.mul_comm] at hn
  rcases Nat.lt_trichotomy c (n / m) with hc | rfl | hc
  · have hmul : (c + 1) * m ≤ n / m * m := Nat.mul_le_mul_right m hc
    rw [Nat.add_mul] at hmul
    exact .inr (.inl ⟨Nat.ne_of_lt hc, by omega, by omega⟩)
  · exact .inl ⟨rfl, by omega, by omega, hlt⟩
  · have hmul : (n / m + 1) * m ≤ c * m := Nat.mul_le_mul_right m hc
    rw [Nat.add_mul] at hmul
    exact .inr (.inr ⟨Nat.ne_of_gt hc, by omega, by omega⟩)

end Framing

end ProcessNetwork
