import Mathlib.Tactic

/-!
# Procedures that may throw

A procedure with a state `σ` that it may throw out of, in `EStateM`: what it did to the state before it threw stays done.
`x.state s` is the state that `x` leaves behind, in whichever way it ends.  What each step of a procedure keeps, the
procedure keeps (`Maintains.bind`); a part of the state that a procedure works on alone is a lens (`focus`).
-/

namespace ProcessNetwork.Exceptions

variable {ε σ τ α β : Type} {I : σ → Prop} {x : EStateM ε σ α} {f : α → EStateM ε σ β} {s t : σ}

/-- The state that is left behind. -/
def final : EStateM.Result ε σ α → σ
  | .ok _ s | .error _ s => s

@[simp] theorem final_ok (a : α) : final (.ok a s : EStateM.Result ε σ α) = s := rfl

@[simp] theorem final_error (e : ε) : final (.error e s : EStateM.Result ε σ α) = s := rfl

/-! ### The steps of a procedure -/

theorem bind_ok {a : α} (h : x s = .ok a t) : (x >>= f) s = f a t := by
  change EStateM.bind x f s = f a t
  rw [EStateM.bind, h]

theorem bind_error {e : ε} (h : x s = .error e t) : (x >>= f) s = .error e t := by
  change EStateM.bind x f s = .error e t
  rw [EStateM.bind, h]

@[simp] theorem pure_run (a : α) : (pure a : EStateM ε σ α) s = .ok a s := rfl

@[simp] theorem throw_run (e : ε) : (throw e : EStateM ε σ α) s = .error e s := rfl

@[simp] theorem get_run : (get : EStateM ε σ σ) s = .ok s s := rfl

@[simp] theorem set_run : (set t : EStateM ε σ PUnit) s = .ok ⟨⟩ t := rfl

@[simp] theorem modify_run (g : σ → σ) : (modify g : EStateM ε σ PUnit) s = .ok ⟨⟩ (g s) := rfl

/-- An assertion that `p` does not hold. -/
def throwIf (p : Prop) [Decidable p] (e : ε) : EStateM ε σ Unit := if p then throw e else pure ()

theorem throwIf_pos {p : Prop} [Decidable p] {e : ε} (h : p) : (throwIf p e : EStateM ε σ Unit) s = .error e s := by
  rw [throwIf, if_pos h, throw_run]

theorem throwIf_neg {p : Prop} [Decidable p] {e : ε} (h : ¬ p) : (throwIf p e : EStateM ε σ Unit) s = .ok () s := by
  rw [throwIf, if_neg h, pure_run]

/-! ### What a procedure keeps -/

/-- From a state with `I` the procedure leaves a state with `I` behind. -/
def Maintains (I : σ → Prop) (x : EStateM ε σ α) : Prop := ∀ s, I s → I (final (x s))

theorem Maintains.pure (a : α) : Maintains I (Pure.pure a : EStateM ε σ α) := fun _ h => h

theorem Maintains.throw (e : ε) : Maintains I (MonadExcept.throw e : EStateM ε σ α) := fun _ h => h

theorem Maintains.get : Maintains I (MonadState.get : EStateM ε σ σ) := fun _ h => h

theorem Maintains.modify {g : σ → σ} (h : ∀ s, I s → I (g s)) : Maintains I (modify g : EStateM ε σ PUnit) := h

theorem Maintains.bind (hx : Maintains I x) (hf : ∀ a, Maintains I (f a)) : Maintains I (x >>= f) := by
  intro s hs
  have h := hx s hs
  cases hr : x s with
  | ok a t =>
    rw [hr] at h
    rw [bind_ok hr]
    exact hf a t h
  | error e t =>
    rw [hr] at h
    rw [bind_error hr]
    exact h

theorem Maintains.ite {p : Prop} [Decidable p] {y : EStateM ε σ α} (hx : p → Maintains I x)
    (hy : ¬ p → Maintains I y) : Maintains I (if p then x else y) := by
  split_ifs with h
  · exact hx h
  · exact hy h

theorem Maintains.throwIf (p : Prop) [Decidable p] (e : ε) : Maintains I (throwIf p e : EStateM ε σ Unit) :=
  .ite (fun _ => .throw e) fun _ => .pure ()

/-! ### A part of the state -/

/-- `x` on the part of the state that `get` reads and `set` writes. -/
def focus (get : σ → τ) (set : τ → σ → σ) (x : EStateM ε τ α) : EStateM ε σ α := fun s =>
  match x (get s) with
  | .ok a t => .ok a (set t s)
  | .error e t => .error e (set t s)

variable {get : σ → τ} {set : τ → σ → σ} {y : EStateM ε τ α}

theorem focus_ok {a : α} {t : τ} (h : y (get s) = .ok a t) : focus get set y s = .ok a (set t s) := by
  rw [focus, h]

theorem focus_error {e : ε} {t : τ} (h : y (get s) = .error e t) : focus get set y s = .error e (set t s) := by
  rw [focus, h]

private theorem final_focus : final (focus get set y s) = set (final (y (get s))) s := by
  cases h : y (get s) with
  | ok a t =>
    rw [focus_ok h]
    rfl
  | error e t =>
    rw [focus_error h]
    rfl

/-- What the procedure keeps of the part, it keeps of the whole. -/
theorem Maintains.focus {P : τ → Prop} (hget : ∀ t s, get (set t s) = t) (hy : Maintains P y) :
    Maintains (fun s => P (get s)) (focus get set y) := by
  intro s hs
  rw [final_focus, hget]
  exact hy _ hs

end ProcessNetwork.Exceptions
