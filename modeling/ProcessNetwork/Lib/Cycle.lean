import Mathlib.Data.Fintype.Card
import Mathlib.Logic.Relation
import Mathlib.Order.Basic
import Mathlib.Tactic

/-!
# Cycles of a partial function

A relation in which nothing leads to two things.  What a cycle leads to is on the cycle, and what does not grow along a
cycle is the same all around.
-/

namespace ProcessNetwork

open Relation

variable {α β : Type} {r : α → α → Prop} {a b c : α}

private theorem returns_of_cycle (hr : ∀ a b c, r a b → r a c → b = c) (hcycle : TransGen r a a) (h : TransGen r a b) :
    TransGen r b a := by
  -- the first step of a way back is the only step there is
  have hstep {b c : α} (hbc : r b c) (hback : TransGen r b a) : TransGen r c a := by
    obtain ⟨c', hbc', hrest⟩ := TransGen.head'_iff.1 hback
    rw [hr b c c' hbc hbc']
    exact hcycle.trans_right hrest
  induction h with
  | single hab => exact hstep hab hcycle
  | tail _ hbc ih => exact hstep hbc ih

/-- Everything on a cycle leads on. -/
theorem exists_next_of_cycle (hr : ∀ a b c, r a b → r a c → b = c) (hcycle : TransGen r a a) (h : TransGen r a b) :
    ∃ c, r b c := by
  obtain ⟨c, hc, -⟩ := TransGen.head'_iff.1 (returns_of_cycle hr hcycle h)
  exact ⟨c, hc⟩

theorem eq_of_cycle [PartialOrder β] (f : α → β) (hr : ∀ a b c, r a b → r a c → b = c) (hcycle : TransGen r a a)
    (hf : ∀ b c, TransGen r a b → r b c → f c ≤ f b) (h : TransGen r a b) : f b = f a := by
  have hle {b c : α} (hb : TransGen r a b) (hbc : TransGen r b c) : f c ≤ f b := by
    induction hbc with
    | single hbc => exact hf b _ hb hbc
    | tail hbc hcd ih => exact (hf _ _ (hb.trans hbc) hcd).trans ih
  exact le_antisymm (hle hcycle h) (hle h (returns_of_cycle hr hcycle h))

/-- Where everything leads on, and there are finitely many places, there is a cycle. -/
theorem exists_cycle [Finite α] {p : α → Prop} (ha : p a) (hnext : ∀ a, p a → ∃ b, p b ∧ r a b) :
    ∃ a, p a ∧ TransGen r a a := by
  by_contra hno
  let back : {a // p a} → {a // p a} → Prop := fun b a => r a.1 b.1
  have hforth {a b : {a // p a}} (h : TransGen back b a) : TransGen r a.1 b.1 := by
    induction h with
    | single h => exact .single h
    | tail _ h ih => exact .head h ih
  have : Std.Irrefl (TransGen back) := ⟨fun a h => hno ⟨a.1, a.2, hforth h⟩⟩
  have hwf : WellFounded (TransGen back) := Finite.wellFounded_of_trans_of_irrefl _
  obtain ⟨m, -, hmin⟩ := hwf.has_min Set.univ ⟨⟨a, ha⟩, trivial⟩
  obtain ⟨b, hb, hm⟩ := hnext m.1 m.2
  exact hmin ⟨b, hb⟩ trivial (.single hm)

end ProcessNetwork
