import Mathlib.Tactic

/-!
# Condition variables

A condition variable with the threads that sleep on it, and those that have been woken and wait for the mutex.  A signal
wakes one of the sleeping threads, whichever the system picks, and does nothing when no thread sleeps; the pick is an
argument, so that all nondeterminism stays in the actions of a machine.  There are no spurious wakeups.
-/

namespace ProcessNetwork

/-- A condition variable on which threads of type `ι` wait. -/
structure Condition (ι : Type) where
  asleep : List ι
  woken : List ι

namespace Condition

variable {ι : Type} {c c' : Condition ι} {i j : ι} {pick : Option ι}

def empty : Condition ι := ⟨[], []⟩

/-- The thread is at the condition variable: asleep, or woken and waiting for the mutex. -/
def Has (c : Condition ι) (i : ι) : Prop := i ∈ c.asleep ∨ i ∈ c.woken

def wait (c : Condition ι) (i : ι) : Condition ι := { c with asleep := i :: c.asleep }

theorem Has.wait (hi : c.Has i) : (c.wait j).Has i := hi.imp_left (List.mem_cons_of_mem _)

def broadcast (c : Condition ι) : Condition ι := ⟨[], c.asleep ++ c.woken⟩

theorem Has.broadcast (hi : c.Has i) : c.broadcast.Has i := .inr (List.mem_append.2 hi)

variable [DecidableEq ι]

instance (c : Condition ι) (i : ι) : Decidable (c.Has i) := inferInstanceAs (Decidable (_ ∨ _))

/-- Waking one thread, the picked one; no thread is picked when none sleeps. -/
def signal (c : Condition ι) : Option ι → Option (Condition ι)
  | none => if c.asleep = [] then some c else none
  | some i => if i ∈ c.asleep then some ⟨c.asleep.erase i, i :: c.woken⟩ else none

/-- A woken thread gets the mutex. -/
def wake (c : Condition ι) (i : ι) : Option (Condition ι) :=
  if i ∈ c.woken then some { c with woken := c.woken.erase i } else none

theorem exists_signal (c : Condition ι) : ∃ pick c', c.signal pick = some c' := by
  cases h : c.asleep with
  | nil => exact ⟨none, c, if_pos h⟩
  | cons i l => exact ⟨some i, _, if_pos (h ▸ List.mem_cons_self)⟩

/-- A signal wakes exactly one thread, if there is one. -/
theorem length_asleep_of_signal (h : c.signal pick = some c') : c'.asleep.length = c.asleep.length - 1 := by
  cases pick with
  | none =>
    obtain ⟨hnil, ⟨⟩⟩ := Option.ite_none_right_eq_some.1 h
    simp [hnil]
  | some i =>
    obtain ⟨hi, ⟨⟩⟩ := Option.ite_none_right_eq_some.1 h
    exact List.length_erase_of_mem hi

theorem Has.signal (hi : c.Has i) (h : c.signal pick = some c') : c'.Has i := by
  cases pick with
  | none =>
    obtain ⟨-, ⟨⟩⟩ := Option.ite_none_right_eq_some.1 h
    exact hi
  | some j =>
    obtain ⟨-, ⟨⟩⟩ := Option.ite_none_right_eq_some.1 h
    by_cases hij : i = j
    · exact .inr (hij ▸ List.mem_cons_self)
    · rcases hi with hi | hi
      · exact .inl ((List.mem_erase_of_ne hij).2 hi)
      · exact .inr (List.mem_cons_of_mem _ hi)

theorem Has.wake (hi : c.Has i) (hij : i ≠ j) (h : c.wake j = some c') : c'.Has i := by
  obtain ⟨-, ⟨⟩⟩ := Option.ite_none_right_eq_some.1 h
  exact hi.imp_right fun hi => (List.mem_erase_of_ne hij).2 hi

theorem asleep_of_wake (h : c.wake i = some c') : c'.asleep = c.asleep := by
  obtain ⟨-, ⟨⟩⟩ := Option.ite_none_right_eq_some.1 h
  rfl

end Condition

end ProcessNetwork
