import Mathlib.Tactic

/-!
# A reader that starts again

A machine takes one symbol at a time.  With a symbol it goes on, or finishes what it reads, or rejects the symbol.  A loop
over a buffer runs the machine as far as it goes and starts it again when it has finished or has rejected a symbol; a
rejected
symbol is given to the new machine.  `loop` counts the rounds, as it need not end: a symbol that a new machine rejects is
rejected again and again.  `scan` gives each symbol at most twice.  The loop ends with what `scan` gives (`exists_loop`,
`scan_of_loop`), and as `scan` goes from symbol to symbol, it does not matter how the symbols are cut into buffers.
`outputs` is what is finished on the way, given to a receiver that may refuse it (`isSome_foldlM_outputs`).
-/

namespace ProcessNetwork.Restart

/-- What a symbol does. -/
inductive Outcome (S O : Type)
  | accepted (s : S)
  | finished (o : O)
  | rejected

section

variable {S O B : Type} (take : S → B → Outcome S O) (fresh : S)

/-- The machine as far as it goes, and the symbols that are left. -/
def run : S → List B → Outcome S O × List B
  | s, [] => (.accepted s, [])
  | s, b :: bs =>
    match take s b with
    | .accepted s' => run s' bs
    | .finished o => (.finished o, bs)
    | .rejected => (.rejected, b :: bs)

/-- The loop over a buffer, in at most `n` rounds. -/
def loop : Nat → S → List B → Option (S × List O)
  | _, s, [] => some (s, [])
  | 0, _, _ :: _ => none
  | n + 1, s, b :: bs =>
    match run take s (b :: bs) with
    | (.accepted s', rest) => loop n s' rest
    | (.finished o, rest) => (loop n fresh rest).map fun r => (r.1, o :: r.2)
    | (.rejected, rest) => loop n fresh rest

/-- A symbol, given to a new machine if it is rejected. -/
def retry (s : S) (b : B) : Outcome S O :=
  match take s b with
  | .rejected => take fresh b
  | outcome => outcome

def scan : S → List B → Option (S × List O)
  | s, [] => some (s, [])
  | s, b :: bs =>
    match retry take fresh s b with
    | .accepted s' => scan s' bs
    | .finished o => (scan fresh bs).map fun r => (r.1, o :: r.2)
    | .rejected => none

/-- The machine after some symbols. -/
def after (s : S) (bs : List B) : S :=
  bs.foldl (fun s b =>
    match retry take fresh s b with
    | .accepted s' => s'
    | _ => fresh) s

/-- What is finished in some symbols. -/
def outputs : S → List B → List O
  | _, [] => []
  | s, b :: bs =>
    match retry take fresh s b with
    | .accepted s' => outputs s' bs
    | .finished o => o :: outputs fresh bs
    | .rejected => outputs fresh bs

end

variable {S O B : Type} {take : S → B → Outcome S O} {fresh : S} {s s' : S} {o : O} {b : B} {bs bs' : List B}

theorem retry_of_accepted (h : take s b = .accepted s') : retry take fresh s b = .accepted s' := by
  rw [retry, h]

theorem retry_of_finished (h : take s b = .finished o) : retry take fresh s b = .finished o := by
  rw [retry, h]

theorem retry_of_rejected (h : take s b = .rejected) : retry take fresh s b = take fresh b := by
  rw [retry, h]

/-! ### One symbol of the loop -/

theorem loop_of_accepted (h : take s b = .accepted s') (n : Nat) :
    loop take fresh (n + 1) s (b :: bs) = loop take fresh (n + 1) s' bs := by
  rw [loop, run, h]
  cases bs with
  | nil => simp [run, loop]
  | cons b' bs => rw [loop]

private theorem loop_of_finished (h : take s b = .finished o) (n : Nat) :
    loop take fresh (n + 1) s (b :: bs) = (loop take fresh n fresh bs).map fun r => (r.1, o :: r.2) := by
  rw [loop, run, h]

private theorem loop_of_rejected (h : take s b = .rejected) (n : Nat) :
    loop take fresh (n + 1) s (b :: bs) = loop take fresh n fresh (b :: bs) := by
  rw [loop, run, h]

private theorem loop_succ {n : Nat} {r : S × List O} (h : loop take fresh n s bs = some r) :
    loop take fresh (n + 1) s bs = some r := by
  induction n generalizing s bs r with
  | zero =>
    cases bs with
    | nil => exact h
    | cons b bs => simp [loop] at h
  | succ n ih =>
    cases bs with
    | nil => exact h
    | cons b bs =>
      rw [loop] at h ⊢
      generalize run take s (b :: bs) = x at h ⊢
      obtain ⟨outcome, rest⟩ := x
      cases outcome with
      | accepted s' => exact ih h
      | finished o =>
        obtain ⟨r', hr', rfl⟩ := Option.map_eq_some_iff.1 h
        simp only [ih hr', Option.map_some]
      | rejected => exact ih h

theorem loop_of_le {n m : Nat} {r : S × List O} (h : loop take fresh n s bs = some r) (hnm : n ≤ m) :
    loop take fresh m s bs = some r := by
  induction hnm with
  | refl => exact h
  | step _ ih => exact loop_succ ih

/-! ### The loop and the scan -/

/-- A rejected symbol is as good as the first one. -/
theorem scan_of_rejected (h : take s b = .rejected) : scan take fresh s (b :: bs) = scan take fresh fresh (b :: bs) := by
  have hretry : retry take fresh fresh b = take fresh b := by
    unfold retry
    split
    · rename_i hrej
      exact hrej.symm ▸ hrej
    · rfl
  rw [scan, scan, retry_of_rejected h, hretry]

theorem scan_of_loop {n : Nat} {r : S × List O} (h : loop take fresh n s bs = some r) : scan take fresh s bs = some r := by
  induction n generalizing s bs r with
  | zero =>
    cases bs with
    | nil =>
      rw [loop] at h
      rw [scan, h]
    | cons b bs => simp [loop] at h
  | succ n ihn =>
    induction bs generalizing s r with
    | nil =>
      rw [loop] at h
      rw [scan, h]
    | cons b bs ih =>
      cases hb : take s b with
      | accepted s' =>
        rw [loop_of_accepted hb] at h
        rw [scan, retry_of_accepted hb]
        exact ih h
      | finished o =>
        rw [loop_of_finished hb, Option.map_eq_some_iff] at h
        obtain ⟨r', hr', rfl⟩ := h
        rw [scan, retry_of_finished hb]
        simp only [ihn hr', Option.map_some]
      | rejected =>
        rw [loop_of_rejected hb] at h
        rw [scan_of_rejected hb]
        exact ihn h

theorem exists_loop {r : S × List O} (h : scan take fresh s bs = some r) : ∃ n, loop take fresh (n + 1) s bs = some r := by
  induction bs generalizing s r with
  | nil =>
    rw [scan] at h
    exact ⟨0, by rw [loop, h]⟩
  | cons b bs ih =>
    rw [scan] at h
    cases hb : take s b with
    | accepted s' =>
      rw [retry_of_accepted hb] at h
      obtain ⟨n, hn⟩ := ih h
      exact ⟨n, (loop_of_accepted hb n).trans hn⟩
    | finished o =>
      rw [retry_of_finished hb] at h
      obtain ⟨r', hr', rfl⟩ := Option.map_eq_some_iff.1 h
      obtain ⟨n, hn⟩ := ih hr'
      exact ⟨n + 1, by rw [loop_of_finished hb, hn, Option.map_some]⟩
    | rejected =>
      rw [retry_of_rejected hb] at h
      -- the new machine is given the symbol in the next round
      cases hf : take fresh b with
      | accepted s' =>
        rw [hf] at h
        obtain ⟨n, hn⟩ := ih h
        exact ⟨n + 1, by rw [loop_of_rejected hb, loop_of_accepted hf, hn]⟩
      | finished o =>
        rw [hf] at h
        obtain ⟨r', hr', rfl⟩ := Option.map_eq_some_iff.1 h
        obtain ⟨n, hn⟩ := ih hr'
        exact ⟨n + 2, by rw [loop_of_rejected hb, loop_of_finished hf, hn, Option.map_some]⟩
      | rejected =>
        rw [hf] at h
        cases h

/-- The scan of a stream that is cut somewhere. -/
theorem scan_append : scan take fresh s (bs ++ bs') =
    (scan take fresh s bs).bind fun r => (scan take fresh r.1 bs').map fun r' => (r'.1, r.2 ++ r'.2) := by
  induction bs generalizing s with
  | nil => simp [scan]
  | cons b bs ih =>
    rw [List.cons_append, scan, scan]
    cases retry take fresh s b with
    | accepted s' => exact ih
    | finished o =>
      dsimp only
      rw [ih]
      cases scan take fresh fresh bs with
      | none => rfl
      | some r => cases h : scan take fresh r.1 bs' <;> simp [h]
    | rejected => rfl

/-- The scan goes on as long as no rejected symbol is rejected again. -/
theorem isSome_scan : (scan take fresh s bs).isSome ↔ ∀ pre b post, bs = pre ++ b :: post →
    take (after take fresh s pre) b = .rejected → take fresh b ≠ .rejected := by
  induction bs generalizing s with
  | nil =>
    refine ⟨fun _ pre b post h => ?_, fun _ => rfl⟩
    simp at h
  | cons c bs ih =>
    have hcons (t : S) (ht : ∀ pre, after take fresh s (c :: pre) = after take fresh t pre)
        (hfirst : take s c = .rejected → take fresh c ≠ .rejected) :
        (∀ pre b post, bs = pre ++ b :: post → take (after take fresh t pre) b = .rejected → take fresh b ≠ .rejected) ↔
        ∀ pre b post, c :: bs = pre ++ b :: post → take (after take fresh s pre) b = .rejected →
          take fresh b ≠ .rejected := by
      refine ⟨fun h pre b post heq => ?_, fun h pre b post heq => ?_⟩
      · cases pre with
        | nil =>
          cases heq
          exact hfirst
        | cons c' pre =>
          obtain ⟨rfl, hbs⟩ := List.cons.inj heq
          rw [ht]
          exact h pre b post hbs
      · rw [← ht]
        exact h (c :: pre) b post (by rw [heq, List.cons_append])
    have hfirst (h : retry take fresh s c ≠ .rejected) : take s c = .rejected → take fresh c ≠ .rejected := by
      intro hc
      rwa [← retry_of_rejected hc]
    rw [scan]
    cases hretry : retry take fresh s c with
    | accepted s' =>
      rw [← hcons s' (fun pre => by simp [after, hretry]) (hfirst (by simp [hretry]))]
      exact ih
    | finished o =>
      rw [← hcons fresh (fun pre => by simp [after, hretry]) (hfirst (by simp [hretry])), Option.isSome_map]
      exact ih
    | rejected =>
      refine ⟨fun h => (Bool.false_ne_true h).elim, fun h => ?_⟩
      have hrej : take s c = .rejected := by
        cases hc : take s c with
        | accepted s' => rw [retry_of_accepted hc] at hretry; cases hretry
        | finished o => rw [retry_of_finished hc] at hretry; cases hretry
        | rejected => rfl
      exact absurd (retry_of_rejected hrej ▸ hretry) (h [] c bs rfl hrej)

/-! ### What is finished -/

theorem outputs_of_scan {r : S × List O} (h : scan take fresh s bs = some r) : r.2 = outputs take fresh s bs := by
  induction bs generalizing s r with
  | nil =>
    rw [scan] at h
    cases h
    rfl
  | cons b bs ih =>
    rw [scan] at h
    rw [outputs]
    cases hretry : retry take fresh s b with
    | accepted s' =>
      rw [hretry] at h
      exact ih h
    | finished o =>
      rw [hretry] at h
      obtain ⟨r', hr', rfl⟩ := Option.map_eq_some_iff.1 h
      exact congrArg (o :: ·) (ih hr')
    | rejected =>
      rw [hretry] at h
      cases h

private theorem outputs_append : outputs take fresh s (bs ++ bs') =
    outputs take fresh s bs ++ outputs take fresh (after take fresh s bs) bs' := by
  induction bs generalizing s with
  | nil => rfl
  | cons b bs ih =>
    have hafter : after take fresh s (b :: bs) = after take fresh
        (match retry take fresh s b with
          | .accepted s' => s'
          | _ => fresh) bs := rfl
    rw [List.cons_append, outputs, outputs, hafter]
    cases retry take fresh s b with
    | accepted s' => exact ih
    | finished o => exact congrArg (o :: ·) ih
    | rejected => exact ih

/-- A receiver that may refuse what it is given takes everything, just if it never refuses what a symbol finishes. -/
theorem isSome_foldlM_outputs {D : Type} {dispatch : D → O → Option D} {d : D} :
    ((outputs take fresh s bs).foldlM dispatch d).isSome ↔ ∀ pre b post, bs = pre ++ b :: post →
      ∀ o d', retry take fresh (after take fresh s pre) b = .finished o →
        (outputs take fresh s pre).foldlM dispatch d = some d' → (dispatch d' o).isSome := by
  constructor
  · rintro h pre b post rfl o d' ho hd
    rw [outputs_append, List.foldlM_append, hd, outputs, ho] at h
    exact Option.isSome_of_isSome_bind h
  · intro h
    induction bs using List.reverseRecOn with
    | nil => rfl
    | append_singleton bs b ih =>
      have hpre := ih fun pre c post heq => h pre c (post ++ [b]) (by rw [heq, List.append_assoc, List.cons_append])
      obtain ⟨d', hd⟩ := Option.isSome_iff_exists.1 hpre
      have hlast := h bs b [] rfl
      rw [outputs_append, List.foldlM_append, hd]
      cases ho : retry take fresh (after take fresh s bs) b with
      | accepted s' =>
        rw [outputs, ho]
        rfl
      | finished o =>
        obtain ⟨d'', hd''⟩ := Option.isSome_iff_exists.1 (hlast o d' ho hd)
        rw [outputs, ho]
        exact Option.isSome_iff_exists.2 ⟨d'', by simp [outputs, hd'']⟩
      | rejected =>
        rw [outputs, ho]
        rfl

end ProcessNetwork.Restart
