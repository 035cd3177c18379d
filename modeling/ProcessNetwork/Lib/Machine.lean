import Mathlib.Tactic

/-!
# Machines, runs and invariants

A machine has a set of initial states and an executable step function: `next s l` is the state after the action
`l`, or `none` when `l` is not enabled in `s`.  All nondeterminism sits in the choice of the actions, so a run is a
list of actions and can be evaluated.  The induction rule for invariants is stated once
(`ReachableBy.invariant`), relative to a condition `ok` on the steps of the run, so that a property that holds only
along restricted runs is proved with the same rule.
-/

namespace ProcessNetwork

/-- A machine with states `σ` and actions `Λ`. -/
structure Machine (σ Λ : Type) where
  init : σ → Prop
  next : σ → Λ → Option σ

namespace Machine

variable {σ Λ : Type} {M : Machine σ Λ}

/-- The state after a list of actions, when all of them are enabled and meet `ok`. -/
def runBy (M : Machine σ Λ) (ok : σ → Λ → Prop) [∀ s l, Decidable (ok s l)] (s : σ) : List Λ → Option σ
  | [] => some s
  | l :: ls => if ok s l then (M.next s l).bind fun t => M.runBy ok t ls else none

/-- `t` can be reached from `s` by steps that all meet `ok`. -/
inductive LeadsBy (M : Machine σ Λ) (ok : σ → Λ → Prop) (s : σ) : σ → Prop
  | refl : LeadsBy M ok s s
  | step {t u : σ} {l : Λ} : LeadsBy M ok s t → ok t l → M.next t l = some u → LeadsBy M ok s u

/-- The states reached by runs from an initial state whose steps all meet `ok`. -/
inductive ReachableBy (M : Machine σ Λ) (ok : σ → Λ → Prop) : σ → Prop
  | init {s : σ} : M.init s → ReachableBy M ok s
  | step {s t : σ} {l : Λ} : ReachableBy M ok s → ok s l → M.next s l = some t → ReachableBy M ok t

/-- The states reached by any run. -/
def Reachable (M : Machine σ Λ) : σ → Prop := M.ReachableBy fun _ _ => True

variable {ok ok' : σ → Λ → Prop} {I : σ → Prop} {s t : σ}

/-- The induction rule for invariants. -/
theorem ReachableBy.invariant (hinit : ∀ s, M.init s → I s)
    (hstep : ∀ s l t, I s → ok s l → M.next s l = some t → I t) (h : M.ReachableBy ok s) : I s := by
  induction h with
  | init h => exact hinit _ h
  | step _ hok hn ih => exact hstep _ _ _ ih hok hn

/-- An invariant that is proved with the help of one that is known already. -/
theorem ReachableBy.invariant_of {J : σ → Prop} (hJ : ∀ s, M.ReachableBy ok s → J s) (hinit : ∀ s, M.init s → I s)
    (hstep : ∀ s l t, J s → I s → ok s l → M.next s l = some t → I t) (h : M.ReachableBy ok s) : I s := by
  induction h with
  | init h => exact hinit _ h
  | step hs hok hn ih => exact hstep _ _ _ (hJ _ hs) ih hok hn

/-- Weakening the condition on the steps. -/
theorem ReachableBy.mono (hok : ∀ s l, ok s l → ok' s l) (h : M.ReachableBy ok s) : M.ReachableBy ok' s := by
  induction h with
  | init h => exact .init h
  | step _ h hn ih => exact .step ih (hok _ _ h) hn

theorem ReachableBy.trans (hs : M.ReachableBy ok s) (h : M.LeadsBy ok s t) : M.ReachableBy ok t := by
  induction h with
  | refl => exact hs
  | step _ hok hn ih => exact .step ih hok hn

theorem LeadsBy.trans {u : σ} (h : M.LeadsBy ok s t) (h' : M.LeadsBy ok t u) : M.LeadsBy ok s u := by
  induction h' with
  | refl => exact h
  | step _ hok hn ih => exact .step ih hok hn

/-- What one step keeps, every continuation of a run keeps. -/
theorem LeadsBy.invariant (hstep : ∀ s l t, I s → ok s l → M.next s l = some t → I t) (h : M.LeadsBy ok s t)
    (hs : I s) : I t := by
  induction h with
  | refl => exact hs
  | step _ hok hn ih => exact hstep _ _ _ ih hok hn

/-! ### Records -/

variable {ω : Type} {note : σ → Λ → ω → ω} {w : ω}

/-- The machine with a record of the run, which `note` brings up to date at each step. -/
def recorded (M : Machine σ Λ) (note : σ → Λ → ω → ω) (w : ω) : Machine (σ × ω) Λ where
  init s := M.init s.1 ∧ s.2 = w
  next s l := (M.next s.1 l).map fun t => (t, note s.1 l s.2)

theorem recorded_next {s t : σ × ω} {l : Λ} (h : (M.recorded note w).next s l = some t) :
    M.next s.1 l = some t.1 ∧ t.2 = note s.1 l s.2 := by
  obtain ⟨u, hu, rfl⟩ := Option.map_eq_some_iff.1 h
  exact ⟨hu, rfl⟩

/-- The record does not restrict the run. -/
theorem ReachableBy.exists_recorded (h : M.ReachableBy ok s) :
    ∃ w', (M.recorded note w).ReachableBy (fun s l => ok s.1 l) (s, w') := by
  induction h with
  | init h => exact ⟨w, .init ⟨h, rfl⟩⟩
  | @step s t l _ hok hn ih =>
    obtain ⟨w', ih⟩ := ih
    exact ⟨note s l w', .step ih hok (congrArg (Option.map fun t => (t, note s l w')) hn)⟩

theorem ReachableBy.of_recorded {s : σ × ω} (h : (M.recorded note w).ReachableBy (fun s l => ok s.1 l) s) :
    M.ReachableBy ok s.1 := by
  induction h with
  | init h => exact .init h.1
  | step _ hok hn ih => exact .step ih hok (recorded_next hn).1

/-! ### Evaluating runs -/

theorem LeadsBy.of_runBy [∀ s l, Decidable (ok s l)] {u : σ} {ls : List Λ} (hs : M.LeadsBy ok u s)
    (h : M.runBy ok s ls = some t) : M.LeadsBy ok u t := by
  induction ls generalizing s with
  | nil => cases h; exact hs
  | cons l ls ih =>
    rw [runBy] at h
    split at h
    · rename_i hok
      rw [Option.bind_eq_some_iff] at h
      obtain ⟨v, hv, h⟩ := h
      exact ih (.step hs hok hv) h
    · cases h

/-- A run that can be evaluated shows that its last state is reachable. -/
theorem ReachableBy.of_runBy [∀ s l, Decidable (ok s l)] {ls : List Λ} (hs : M.ReachableBy ok s)
    (h : M.runBy ok s ls = some t) : M.ReachableBy ok t :=
  hs.trans (LeadsBy.of_runBy .refl h)

/-- A run whose last state passes a test shows that a state that passes it is reachable. -/
theorem exists_reachableBy [∀ s l, Decidable (ok s l)] {ls : List Λ} {p : σ → Bool} (hs : M.init s)
    (h : (M.runBy ok s ls).any p = true) : ∃ t, M.ReachableBy ok t ∧ p t = true := by
  rw [Option.any_eq_true] at h
  obtain ⟨t, ht, hp⟩ := h
  exact ⟨t, .of_runBy (.init hs) ht, hp⟩

theorem exists_leadsBy [∀ s l, Decidable (ok s l)] {ls : List Λ} {p : σ → Bool}
    (h : (M.runBy ok s ls).any p = true) : ∃ t, M.LeadsBy ok s t ∧ p t = true := by
  rw [Option.any_eq_true] at h
  obtain ⟨t, ht, hp⟩ := h
  exact ⟨t, .of_runBy .refl ht, hp⟩

end Machine

/-! ### Progress -/

/-- A sequence of states with a measure that never grows, and that shrinks at infinitely many steps until the sequence
stops, stops. -/
theorem exists_stop_of_fair {σ : Type} {state : Nat → σ} {go : Nat → Prop} (stop : σ → Prop) (μ : σ → Nat)
    (hmono : ∀ i, μ (state (i + 1)) ≤ μ (state i)) (hless : ∀ i, go i → ¬ stop (state i) → μ (state (i + 1)) < μ (state i))
    (hgo : ∀ i, ∃ j, i ≤ j ∧ go j) : ∃ i, stop (state i) := by
  have hfrom : ∀ k i, μ (state i) < k → ∃ i, stop (state i) := by
    intro k
    induction k with
    | zero => exact fun _ h => absurd h (Nat.not_lt_zero _)
    | succ k ih =>
      intro i hi
      obtain ⟨j, hij, hj⟩ := hgo i
      by_cases hstop : stop (state j)
      · exact ⟨j, hstop⟩
      · have hle : μ (state j) ≤ μ (state i) := antitone_nat_of_succ_le (f := fun i => μ (state i)) hmono hij
        have hlt := hless j hj hstop
        exact ih (j + 1) (by omega)
  exact hfrom _ 0 (Nat.lt_succ_self _)

end ProcessNetwork
