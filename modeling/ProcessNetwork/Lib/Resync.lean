import Mathlib.Tactic

/-!
# Records in a byte stream that is scanned for them

A stream holds records of `n` bytes that can be told by their contents (`valid`).  A record can be followed by a payload,
whose length the record says (`len`).  `scan` is the reference: at each position it tries the next `n` bytes, goes on
after the record and its payload when they are one, and one byte further when they are not.

A reader of such a stream keeps fewer than `n` bytes of it (`push`).  It is given the stream in pieces of any sizes, and
what it has found so far together with the scan of what it keeps and what is left is the scan of the whole stream
(`scan_push`), however the stream is cut.
-/

namespace ProcessNetwork

namespace Resync

variable {B : Type} {n : Nat} {valid : List B → Bool} {len : List B → Nat} {w piece s : List B}

/-- The records of a stream with their payloads. -/
def scan (n : Nat) (valid : List B → Bool) (len : List B → Nat) : List B → List (List B × List B)
  | [] => []
  | b :: s =>
    if n ≤ s.length + 1 then
      let record := (b :: s).take n
      let rest := s.drop (n - 1)
      if valid record then (record, rest.take (len record)) :: scan n valid len (rest.drop (len record))
      else scan n valid len s
    else []
  termination_by s => s.length

/-- The bytes kept after a piece, and the record that it completes. -/
def push (n : Nat) (valid : List B → Bool) (w piece : List B) : Option (List B) × List B :=
  if (w ++ piece).length = n then
    if valid (w ++ piece) then (some (w ++ piece), []) else (none, (w ++ piece).tail)
  else (none, w ++ piece)

theorem length_push_lt (hn : 0 < n) (hw : w.length + piece.length ≤ n) : (push n valid w piece).2.length < n := by
  unfold push
  split
  · split
    · exact hn
    · simp only [List.length_tail, List.length_append]
      omega
  · rename_i h
    simp only [List.length_append] at h ⊢
    omega

theorem scan_of_length_lt (h : s.length < n) : scan n valid len s = [] := by
  cases s with
  | nil => rw [scan]
  | cons b s => rw [scan, if_neg (by simp only [List.length_cons] at h; omega)]

/-- A record at the front of the stream. -/
theorem scan_record (hn : 0 < n) (hw : w.length = n) (hv : valid w = true) :
    scan n valid len (w ++ s) = (w, s.take (len w)) :: scan n valid len (s.drop (len w)) := by
  cases w with
  | nil => simp only [List.length_nil] at hw; omega
  | cons b w =>
    simp only [List.length_cons] at hw
    have htake : (b :: (w ++ s)).take n = b :: w := by
      rw [← List.cons_append, List.take_append_of_le_length (by simp [hw]), List.take_of_length_le (by simp [hw])]
    have hdrop : (w ++ s).drop (n - 1) = s := by
      rw [← hw, Nat.add_sub_cancel, List.drop_left]
    rw [List.cons_append, scan, if_pos (by simp only [List.length_append]; omega), htake, if_pos hv, hdrop]

/-- No record at the front of the stream. -/
theorem scan_skip (hn : 0 < n) (hw : w.length = n) (hv : valid w = false) :
    scan n valid len (w ++ s) = scan n valid len (w.tail ++ s) := by
  cases w with
  | nil => simp only [List.length_nil] at hw; omega
  | cons b w =>
    simp only [List.length_cons] at hw
    have htake : (b :: (w ++ s)).take n = b :: w := by
      rw [← List.cons_append, List.take_append_of_le_length (by simp [hw]), List.take_of_length_le (by simp [hw])]
    rw [List.cons_append, scan, if_pos (by simp only [List.length_append]; omega), htake]
    exact if_neg (by simp [hv])

/-- A piece takes the scan from the bytes kept before it to those kept after it. -/
theorem scan_push (hn : 0 < n) (s : List B) :
    scan n valid len (w ++ (piece ++ s)) =
      match push n valid w piece with
      | (none, w') => scan n valid len (w' ++ s)
      | (some record, w') => (record, s.take (len record)) :: scan n valid len (w' ++ s.drop (len record)) := by
  rw [← List.append_assoc]
  unfold push
  by_cases hlen : (w ++ piece).length = n
  · rw [if_pos hlen]
    by_cases hv : valid (w ++ piece) = true
    · rw [if_pos hv]
      exact scan_record hn hlen hv
    · rw [if_neg hv]
      exact scan_skip hn hlen (Bool.eq_false_iff.2 hv)
  · rw [if_neg hlen]

/-- The scan of a stream that consists of records with their payloads. -/
theorem scan_records (hn : 0 < n) {rs : List (List B × List B)}
    (h : ∀ r ∈ rs, r.1.length = n ∧ valid r.1 = true ∧ r.2.length = len r.1) :
    scan n valid len (rs.flatMap fun r => r.1 ++ r.2) = rs := by
  induction rs with
  | nil => rw [List.flatMap_nil, scan]
  | cons r rs ih =>
    obtain ⟨hlen, hv, hpay⟩ := h r List.mem_cons_self
    rw [List.flatMap_cons, List.append_assoc, scan_record hn hlen hv, ← hpay, List.take_left, List.drop_left,
      ih fun r hr => h r (List.mem_cons_of_mem _ hr)]

end Resync

end ProcessNetwork
