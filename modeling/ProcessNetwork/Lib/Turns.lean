import Mathlib.Data.Int.CardIntervalMod
import Mathlib.Data.List.Flatten
import Mathlib.Tactic

/-!
# Taking turns

The rounds `0, 1, 2, …` go to a number of ports in turn, and blocks of one size that are put one after the other are found
again at the multiples of the size.
-/

namespace ProcessNetwork

/-- How many of the first `rounds` rounds a port has got. -/
def turns (ports port rounds : Nat) : Nat := Nat.count (fun r => r % ports = port) rounds

variable {α : Type} {ports port rounds r i n size : Nat} {B : Nat → List α} {l : List α}

theorem turns_zero : turns ports port 0 = 0 := Nat.count_zero _

theorem turns_succ : turns ports port (rounds + 1) = turns ports port rounds + if rounds % ports = port then 1 else 0 :=
  Nat.count_succ _ _

private theorem turns_mono (ports port : Nat) (h : r ≤ rounds) : turns ports port r ≤ turns ports port rounds :=
  Nat.count_monotone _ h

theorem turns_self (hports : 0 < ports) (r : Nat) : turns ports (r % ports) r = r / ports := by
  have hcard := Nat.count_modEq_card r hports r
  rw [if_neg (lt_irrefl _), Nat.add_zero] at hcard
  exact hcard

/-- The turn of a port comes before the round that follows. -/
theorem lt_of_lt_turns (hports : 0 < ports) (h : r / ports < turns ports (r % ports) rounds) : r < rounds := by
  by_contra hle
  have hmono := turns_mono ports (r % ports) (not_lt.1 hle)
  rw [turns_self hports] at hmono
  omega

theorem lt_turns_of_lt (hports : 0 < ports) (h : r < rounds) : r / ports < turns ports (r % ports) rounds := by
  have hmono := turns_mono ports (r % ports) (Nat.succ_le_of_lt h)
  rw [turns_succ, turns_self hports, if_pos rfl] at hmono
  omega

/-- The rounds of a port are those that it gets. -/
theorem round_lt (hports : 0 < ports) (hport : port < ports) (h : i < turns ports port rounds) :
    i * ports + port < rounds := by
  have hdiv : (i * ports + port) / ports = i := by
    rw [Nat.add_comm, Nat.add_mul_div_right _ _ hports, Nat.div_eq_of_lt hport, Nat.zero_add]
  have hmod : (i * ports + port) % ports = port := by
    rw [Nat.add_comm, Nat.add_mul_mod_self_right, Nat.mod_eq_of_lt hport]
  refine lt_of_lt_turns hports ?_
  rw [hdiv, hmod]
  exact h

theorem length_flatMap_range (hB : ∀ i < n, (B i).length = size) : ((List.range n).flatMap B).length = n * size := by
  induction n with
  | zero => simp
  | succ n ih =>
    rw [List.range_succ, List.flatMap_append, List.length_append, ih fun i hi => hB i (by omega)]
    simp [hB n (by omega), Nat.succ_mul]

/-- A block is found again, also when not all of the blocks are there yet. -/
theorem block_of_prefix (hsize : 0 < size) (hB : ∀ i < n, (B i).length = size) (hl : l <+: (List.range n).flatMap B)
    (hi : i * size + size ≤ l.length) : i < n ∧ (l.drop (i * size)).take size = B i := by
  have hlength := length_flatMap_range hB
  have hin : i < n := by
    have hle := hl.length_le
    rw [hlength] at hle
    by_contra hge
    have := Nat.mul_le_mul_right size (not_lt.1 hge)
    omega
  refine ⟨hin, ?_⟩
  obtain ⟨rest, hrest⟩ := hl
  obtain ⟨m, rfl⟩ : ∃ m, n = i + 1 + m := ⟨n - i - 1, by omega⟩
  have hfront : ((List.range i).flatMap B).length = i * size := length_flatMap_range fun j hj => hB j (by omega)
  have hsplit : (l ++ rest).drop (i * size) = B i ++ (List.range m).flatMap fun j => B (i + 1 + j) := by
    rw [hrest, List.range_add, List.flatMap_append, List.range_succ, List.flatMap_append, List.append_assoc,
      ← hfront, List.drop_left]
    simp [List.flatMap_map]
  rw [List.drop_append_of_le_length (by omega)] at hsplit
  calc (l.drop (i * size)).take size
      = (l.drop (i * size) ++ rest).take size := by
        rw [List.take_append_of_le_length (by rw [List.length_drop]; omega)]
    _ = B i := by
        rw [hsplit, List.take_append_of_le_length (hB i hin).ge, List.take_of_length_le (hB i hin).le]

end ProcessNetwork
