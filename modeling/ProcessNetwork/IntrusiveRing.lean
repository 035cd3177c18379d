import ProcessNetwork.Lib.Circle
import ProcessNetwork.Lib.Machine

/-!
# `IntrusiveRing`

Any number of rings and of elements of `IntrusiveRing.h`.  A pointer to an element is the element, and `ethis` is the element
itself.  A method that would follow a null pointer is not enabled.

`Represents s L` says what the rings are for: the ring `R` is the list `L R`, from the front on.  A step that meets
`Meets` keeps
`Sound`, and no other step does (`rings_disjoint`).
-/

namespace ProcessNetwork

open Links (Circle)

structure IntrusiveRings (ι ρ : Type) where
  links : Links ι
  ring : ι → Option ρ
  front : ρ → Option ι

namespace IntrusiveRings

variable {ι ρ : Type} [DecidableEq ι] [DecidableEq ρ]

/-- The elements are linked to themselves, and the rings are empty. -/
def init : IntrusiveRings ι ρ := ⟨⟨id, id⟩, fun _ => none, fun _ => none⟩

def setRing (s : IntrusiveRings ι ρ) (e : ι) (r : Option ρ) : IntrusiveRings ι ρ :=
  { s with ring := Function.update s.ring e r }

def setFront (s : IntrusiveRings ι ρ) (R : ρ) (f : Option ι) : IntrusiveRings ι ρ :=
  { s with front := Function.update s.front R f }

/-- `IntrusiveRing::Remove`. -/
def ringRemove (s : IntrusiveRings ι ρ) (R : ρ) (val : ι) : IntrusiveRings ι ρ :=
  let s :=
    if s.front R = some val then
      s.setFront R (if s.links.next val = val then none else some (s.links.next val))
    else s
  { s with links := s.links.unlink val }.setRing val none

/-- `IntrusiveRingElement::Remove`. -/
def remove (s : IntrusiveRings ι ρ) (e : ι) : IntrusiveRings ι ρ :=
  match s.ring e with
  | some R => s.ringRemove R e
  | none => s

def pushNext (s : IntrusiveRings ι ρ) (R : ρ) (cur n : ι) : IntrusiveRings ι ρ :=
  let s := (s.remove n).setRing n (some R)
  { s with links := s.links.insertAfter cur n }

def pushPrev (s : IntrusiveRings ι ρ) (R : ρ) (cur p : ι) : IntrusiveRings ι ρ :=
  let s := (s.remove p).setRing p (some R)
  { s with links := s.links.insertBefore cur p }

def pushFront (s : IntrusiveRings ι ρ) (R : ρ) (e : ι) : IntrusiveRings ι ρ :=
  let s := s.setRing e (some R)
  let s :=
    match s.front R with
    | some front => s.pushPrev R front e
    | none => s
  s.setFront R (some e)

def pushBack (s : IntrusiveRings ι ρ) (R : ρ) (e : ι) : IntrusiveRings ι ρ :=
  let s := s.setRing e (some R)
  match s.front R with
  | some front => s.pushPrev R front e
  | none => s.setFront R (some e)

def advance (s : IntrusiveRings ι ρ) (R : ρ) : Option (IntrusiveRings ι ρ) :=
  (s.front R).map fun front => s.setFront R (some (s.links.next front))

def recede (s : IntrusiveRings ι ρ) (R : ρ) : Option (IntrusiveRings ι ρ) :=
  (s.front R).map fun front => s.setFront R (some (s.links.prev front))

/-- The element that is returned, and the rings after it. -/
def popFront (s : IntrusiveRings ι ρ) (R : ρ) : Option (ι × IntrusiveRings ι ρ) :=
  (s.front R).map fun ret => (ret, (s.setFront R (some (s.links.next ret))).remove ret)

def popBack (s : IntrusiveRings ι ρ) (R : ρ) : Option (ι × IntrusiveRings ι ρ) :=
  (s.front R).map fun front => (s.links.prev front, s.remove (s.links.prev front))

/-- `IntrusiveRingElement::Next(n)`. -/
def elementNext (s : IntrusiveRings ι ρ) (cur n : ι) : Option (IntrusiveRings ι ρ) :=
  (s.ring cur).map fun R => s.pushNext R cur n

/-- `IntrusiveRingElement::Prev(p)`. -/
def elementPrev (s : IntrusiveRings ι ρ) (cur p : ι) : Option (IntrusiveRings ι ρ) :=
  (s.ring cur).map fun R => s.pushPrev R cur p

end IntrusiveRings

/-- `remove` is also what the destructor of an element does. -/
inductive RingAct (ι ρ : Type) where
  | pushFront (R : ρ) (e : ι)
  | pushBack (R : ρ) (e : ι)
  | popFront (R : ρ)
  | popBack (R : ρ)
  | advance (R : ρ)
  | recede (R : ρ)
  | pushNext (R : ρ) (cur n : ι)
  | pushPrev (R : ρ) (cur p : ι)
  | elementNext (cur n : ι)
  | elementPrev (cur p : ι)
  | ringRemove (R : ρ) (val : ι)
  | remove (e : ι)

namespace IntrusiveRings

variable {ι ρ : Type} [DecidableEq ι] [DecidableEq ρ]

def act (s : IntrusiveRings ι ρ) : RingAct ι ρ → Option (IntrusiveRings ι ρ)
  | .pushFront R e => some (s.pushFront R e)
  | .pushBack R e => some (s.pushBack R e)
  | .popFront R => (s.popFront R).map (·.2)
  | .popBack R => (s.popBack R).map (·.2)
  | .advance R => s.advance R
  | .recede R => s.recede R
  | .pushNext R cur n => some (s.pushNext R cur n)
  | .pushPrev R cur p => some (s.pushPrev R cur p)
  | .elementNext cur n => s.elementNext cur n
  | .elementPrev cur p => s.elementPrev cur p
  | .ringRemove R val => some (s.ringRemove R val)
  | .remove e => some (s.remove e)

end IntrusiveRings

def ringMachine (ι ρ : Type) [DecidableEq ι] [DecidableEq ρ] : Machine (IntrusiveRings ι ρ) (RingAct ι ρ) where
  init s := s = .init
  next := IntrusiveRings.act

namespace IntrusiveRings

section Lists

variable {ι ρ : Type} {s t : IntrusiveRings ι ρ} {L : ρ → List ι}

/-- What the links, the owners and the fronts say together. -/
structure Sound (s : IntrusiveRings ι ρ) : Prop where
  inverse : ∀ e, s.links.next (s.links.prev e) = e ∧ s.links.prev (s.links.next e) = e
  ring : ∀ e R, s.ring e = some R ↔ ∃ f, s.front R = some f ∧ ∃ n, s.links.next^[n] f = e
  free : ∀ e, s.ring e = none → s.links.next e = e ∧ s.links.prev e = e
  front : ∀ R, s.front R = none ↔ ∀ e, s.ring e ≠ some R

/-- The ring `R` is the list `L R`, from the front on. -/
structure Represents (s : IntrusiveRings ι ρ) (L : ρ → List ι) : Prop where
  nodup : ∀ R, (L R).Nodup
  ring : ∀ e R, s.ring e = some R ↔ e ∈ L R
  circle : ∀ R, s.links.Circle (L R)
  front : ∀ R, s.front R = (L R).head?
  free : ∀ e, s.ring e = none → s.links.next e = e ∧ s.links.prev e = e

private theorem Represents.sound (h : Represents s L) : Sound s where
  inverse e := by
    cases hr : s.ring e with
    | none =>
      obtain ⟨hnext, hprev⟩ := h.free e hr
      rw [hprev, hnext, hprev]
      exact ⟨rfl, rfl⟩
    | some R => exact (h.circle R).inverse ((h.ring e R).1 hr)
  ring e R := by
    have hcircle := h.circle R
    rw [h.ring e R, h.front R]
    cases hl : L R with
    | nil => simp
    | cons f l =>
      rw [hl] at hcircle
      simp only [List.head?_cons, Option.some.injEq, exists_eq_left', hcircle.reach_iff]
  free := h.free
  front R := by
    rw [h.front R, List.head?_eq_none_iff, List.eq_nil_iff_forall_not_mem]
    exact forall_congr' fun e => not_congr (h.ring e R).symm

private theorem Represents.disjoint (h : Represents s L) {e : ι} {R R' : ρ} (he : e ∈ L R) (he' : e ∈ L R') : R' = R :=
  Option.some.inj (((h.ring e R').2 he').symm.trans ((h.ring e R).2 he))

variable [DecidableEq ρ]

/-- Another list takes the place of one ring. -/
theorem Represents.replace (h : Represents s L) {R : ρ} {l : List ι} (hnodup : l.Nodup)
    (hmem : ∀ e, t.ring e = some R ↔ e ∈ l) (hother : ∀ e R', R' ≠ R → (t.ring e = some R' ↔ s.ring e = some R'))
    (hcircle : t.links.Circle l)
    (hframe : ∀ z R', R' ≠ R → z ∈ L R' → t.links.next z = s.links.next z ∧ t.links.prev z = s.links.prev z)
    (hfront : t.front = Function.update s.front R l.head?)
    (hfree : ∀ e, t.ring e = none → t.links.next e = e ∧ t.links.prev e = e) :
    Represents t (Function.update L R l) where
  nodup R' := by
    rw [Function.update_apply]
    split_ifs with hR
    · exact hnodup
    · exact h.nodup R'
  ring e R' := by
    rw [Function.update_apply]
    split_ifs with hR
    · rw [hR]
      exact hmem e
    · rw [hother e R' hR, h.ring e R']
  circle R' := by
    rw [Function.update_apply]
    split_ifs with hR
    · exact hcircle
    · exact (h.circle R').congr fun z hz => hframe z R' hR hz
  front R' := by
    rw [hfront, Function.update_apply, Function.update_apply]
    split_ifs with hR
    · rfl
    · exact h.front R'
  free := hfree

/-- The ring begins elsewhere. -/
theorem Represents.rotate (h : Represents s L) {R : ρ} {u v : List ι} (hL : L R = u ++ v) :
    Represents (s.setFront R (v ++ u).head?) (Function.update L R (v ++ u)) := by
  have hperm : (v ++ u).Perm (L R) := hL ▸ List.perm_append_comm
  have hcircle := h.circle R
  rw [hL] at hcircle
  refine h.replace (hperm.nodup_iff.2 (h.nodup R)) (fun e => ?_) (fun _ _ _ => Iff.rfl) (Links.circle_append_comm.1 hcircle)
    (fun _ _ _ _ => ⟨rfl, rfl⟩) rfl h.free
  rw [hperm.mem_iff]
  exact h.ring e R

end Lists

variable {ι ρ : Type} [DecidableEq ι] [DecidableEq ρ] {s t : IntrusiveRings ι ρ} {R R' : ρ} {e c p f : ι} {u v : List ι}
  {L : ρ → List ι}

/-! ### Steps on the lists -/

/-- A free element joins the list `L R`, which becomes `l`. -/
theorem Represents.insert (h : Represents s L) (hp : s.ring p = none) {l : List ι} {k : Links ι}
    (hl : l.Perm (p :: L R)) (hcircle : k.Circle l)
    (hframe : ∀ z, z ∉ p :: L R → k.next z = s.links.next z ∧ k.prev z = s.links.prev z) {front : ρ → Option ι}
    (hfront : front = Function.update s.front R l.head?) :
    Represents ⟨k, Function.update s.ring p (some R), front⟩ (Function.update L R l) := by
  have hfresh (R' : ρ) : p ∉ L R' := fun hmem => by
    rw [(h.ring p R').2 hmem] at hp
    cases hp
  refine h.replace (hl.nodup_iff.2 (List.nodup_cons.2 ⟨hfresh R, h.nodup R⟩)) ?_ ?_ hcircle ?_ hfront ?_
  · intro e
    dsimp only
    rw [hl.mem_iff, List.mem_cons, Function.update_apply, ← h.ring e R]
    split_ifs with he
    · exact iff_of_true rfl (.inl he)
    · simp [he]
  · intro e R' hR
    dsimp only
    rw [Function.update_apply]
    split_ifs with he
    · rw [he, hp]
      exact iff_of_false (fun heq => hR (Option.some.inj heq).symm) (fun heq => (by cases heq))
    · rfl
  · intro z R' hR hz
    refine hframe z fun hmem => ?_
    obtain rfl | hmem := List.mem_cons.1 hmem
    · exact hfresh R' hz
    · exact hR (h.disjoint hmem hz)
  · intro e he
    dsimp only at he
    rw [Function.update_apply] at he
    split_ifs at he with hep
    have hout : e ∉ p :: L R := by
      intro hmem
      obtain heq | hmem := List.mem_cons.1 hmem
      · exact hep heq
      · rw [(h.ring e R).2 hmem] at he
        cases he
    obtain ⟨hnext, hprev⟩ := hframe e hout
    rw [hnext, hprev]
    exact h.free e he

private theorem ringRemove_setRing (s : IntrusiveRings ι ρ) (R : ρ) (e : ι) (r : Option ρ) :
    (s.setRing e r).ringRemove R e = s.ringRemove R e := by
  unfold ringRemove setRing setFront
  dsimp only
  split_ifs <;> simp

omit [DecidableEq ρ] in
private theorem erase_of_ring_none (h : Represents s L) (he : s.ring e = none) : (fun R' => (L R').erase e) = L := by
  funext R'
  refine List.erase_of_not_mem fun hmem => ?_
  rw [(h.ring e R').2 hmem] at he
  cases he

private theorem erase_of_mem (h : Represents s L) (he : e ∈ L R) :
    (fun R' => (L R').erase e) = Function.update L R ((L R).erase e) := by
  funext R'
  rw [Function.update_apply]
  split_ifs with hR
  · rw [hR]
  · exact List.erase_of_not_mem fun hmem => hR (h.disjoint he hmem)

private theorem ringRemove_links (s : IntrusiveRings ι ρ) (R : ρ) (e : ι) : (s.ringRemove R e).links = s.links.unlink e := by
  unfold ringRemove setRing setFront
  split_ifs <;> rfl

private theorem ringRemove_ring (s : IntrusiveRings ι ρ) (R : ρ) (e : ι) :
    (s.ringRemove R e).ring = Function.update s.ring e none := by
  unfold ringRemove setRing setFront
  split_ifs <;> rfl

private theorem ringRemove_front (s : IntrusiveRings ι ρ) (R : ρ) (e : ι) :
    (s.ringRemove R e).front = if s.front R = some e then
      Function.update s.front R (if s.links.next e = e then none else some (s.links.next e)) else s.front := by
  unfold ringRemove setRing setFront
  split_ifs <;> rfl

/-- `Advance` in `Remove` leads to the head of what is left. -/
private theorem head_of_path {k : Links ι} (h : k.Path e v e) (he : e ∉ v) :
    (if k.next e = e then none else some (k.next e)) = v.head? := by
  cases v with
  | nil => rw [if_pos h.1, List.head?_nil]
  | cons x v =>
    have hx : k.next e = x := h.1.1
    have hne : x ≠ e := fun heq => he (heq ▸ List.mem_cons_self)
    rw [hx, if_neg hne, List.head?_cons]

/-- An element leaves its own ring. -/
private theorem Represents.leave (h : Represents s L) (he : e ∈ L R) :
    Represents (s.ringRemove R e) (fun R' => (L R').erase e) := by
  have hcircle := h.circle R
  have hnodup := h.nodup R
  have hfront := h.front R
  have hring := h.ring
  have hframe {z : ι} (hz : z ∉ L R) := hcircle.unlink_frame he hz
  rw [erase_of_mem h he]
  obtain ⟨u, v, hL⟩ := List.append_of_mem he
  rw [hL, List.nodup_middle, List.nodup_cons, List.mem_append, not_or] at hnodup
  obtain ⟨⟨hu, hv⟩, hnodup⟩ := hnodup
  rw [hL, List.erase_append_right _ hu, List.erase_cons_head]
  rw [hL, Links.circle_append_comm] at hcircle
  have hmem (z : ι) : z ∈ u ++ v ↔ z ≠ e ∧ z ∈ L R := by
    rw [hL, List.mem_append, List.mem_append, List.mem_cons]
    constructor
    · rintro (hz | hz)
      · exact ⟨fun heq => hu (heq ▸ hz), .inl hz⟩
      · exact ⟨fun heq => hv (heq ▸ hz), .inr (.inr hz)⟩
    · rintro ⟨hne, hz | hz | hz⟩
      · exact .inl hz
      · exact absurd hz hne
      · exact .inr hz
  refine h.replace hnodup ?_ ?_ ?_ ?_ ?_ ?_
  · intro z
    rw [ringRemove_ring, Function.update_apply, hmem, ← hring z R]
    split_ifs with hz
    · simp [hz]
    · simp [hz]
  · intro z R' hR
    rw [ringRemove_ring, Function.update_apply]
    split_ifs with hz
    · rw [hz, (hring e R).2 he]
      exact iff_of_false (fun heq => (by cases heq)) fun heq => hR (Option.some.inj heq).symm
    · rfl
  · rw [ringRemove_links, Links.circle_append_comm]
    have hout : e ∉ v ++ u := fun hmem => (List.mem_append.1 hmem).elim hv hu
    exact hcircle.unlink (List.nodup_cons.2 ⟨hout, List.perm_append_comm.nodup_iff.1 hnodup⟩)
  · intro z R' hR hz
    rw [ringRemove_links]
    exact hframe fun hz' => hR (h.disjoint hz' hz)
  -- the front moves on when it is the front that leaves
  · rw [ringRemove_front, hfront, hL]
    cases u with
    | nil =>
      rw [List.append_nil] at hcircle
      rw [List.nil_append, List.head?_cons, if_pos rfl, head_of_path hcircle hv, List.nil_append]
    | cons a u =>
      have hae : ¬ some a = some e := fun heq => hu (Option.some.inj heq ▸ List.mem_cons_self)
      rw [List.cons_append, List.head?_cons, if_neg hae, List.cons_append, List.head?_cons]
      rw [hL, List.cons_append, List.head?_cons] at hfront
      rw [← hfront, Function.update_eq_self]
  · intro z hz
    rw [ringRemove_ring, Function.update_apply] at hz
    rw [ringRemove_links]
    split_ifs at hz with hze
    · rw [hze]
      exact Links.unlink_self _ _
    · have hout : z ∉ L R := fun hmem => by
        rw [(hring z R).2 hmem] at hz
        cases hz
      obtain ⟨hnext, hprev⟩ := hframe hout
      rw [hnext, hprev]
      exact h.free z hz

/-- `IntrusiveRing::Remove` takes the element out, if it is not the front of another ring. -/
theorem Represents.ringRemove (h : Represents s L) (R : ρ) (e : ι)
    (hother : ∀ R', s.ring e = some R' → R' ≠ R → s.front R' ≠ some e) :
    Represents (s.ringRemove R e) (fun R' => (L R').erase e) := by
  cases hr : s.ring e with
  | none =>
    have hfront : s.front R ≠ some e := fun hf => by
      rw [(h.sound.ring e R).2 ⟨e, hf, 0, rfl⟩] at hr
      cases hr
    have hsame : s.ringRemove R e = s := by
      unfold IntrusiveRings.ringRemove setRing
      rw [if_neg hfront]
      dsimp only
      rw [Links.unlink_eq_self (h.free e hr), ← hr, Function.update_eq_self]
    rw [hsame, erase_of_ring_none h hr]
    exact h
  | some R' =>
    by_cases hR : R' = R
    · rw [hR] at hr
      exact h.leave ((h.ring e R).1 hr)
    · have hfront : s.front R ≠ some e := fun hf => by
        rw [(h.sound.ring e R).2 ⟨e, hf, 0, rfl⟩] at hr
        exact hR (Option.some.inj hr).symm
      have hsame : s.ringRemove R e = s.ringRemove R' e := by
        unfold IntrusiveRings.ringRemove
        rw [if_neg hfront, if_neg (hother R' hr hR)]
      rw [hsame]
      exact h.leave ((h.ring e R').1 hr)

private theorem Represents.remove (h : Represents s L) (e : ι) : Represents (s.remove e) (fun R' => (L R').erase e) := by
  cases hr : s.ring e with
  | none =>
    rw [erase_of_ring_none h hr]
    unfold IntrusiveRings.remove
    rw [hr]
    exact h
  | some R =>
    have hsame : s.remove e = s.ringRemove R e := by
      unfold IntrusiveRings.remove
      rw [hr]
    rw [hsame]
    exact h.leave ((h.ring e R).1 hr)

omit [DecidableEq ρ] in
/-- After the removal the element is free. -/
private theorem Represents.free_of_erase (h : Represents s L) (ht : Represents t (fun R' => (L R').erase e)) :
    t.ring e = none := by
  cases hr : t.ring e with
  | none => rfl
  | some R => exact absurd ((ht.ring e R).1 hr) ((h.nodup R).not_mem_erase)

private theorem Represents.insertAfter (h : Represents s L) (hp : s.ring p = none) (hL : L R = u ++ c :: v) :
    Represents { s with links := s.links.insertAfter c p, ring := Function.update s.ring p (some R) }
      (Function.update L R (u ++ c :: p :: v)) := by
  have hcircle := h.circle R
  have hnodup := h.nodup R
  have hc : c ∈ L R := hL ▸ List.mem_append_right _ List.mem_cons_self
  have hout : p ∉ L R := fun hmem => by
    rw [(h.ring p R).2 hmem] at hp
    cases hp
  have hfirst : (u ++ c :: v).head? = (u ++ c :: p :: v).head? := by cases u <;> rfl
  have hfront := h.front R
  refine h.insert hp ?_ ?_ (fun z hz => hcircle.insertAfter_frame hc hz) ?_
  · rw [hL]
    have hperm : (u ++ c :: p :: v).Perm (u ++ p :: c :: v) := (List.Perm.swap p c v).append_left u
    exact hperm.trans List.perm_middle
  · rw [hL, Links.circle_append_comm] at hcircle
    have hperm : (c :: v ++ u).Perm (L R) := hL ▸ List.perm_append_comm
    rw [Links.circle_append_comm]
    exact hcircle.insertAfter (hperm.nodup_iff.2 hnodup) fun hmem => hout (hperm.mem_iff.1 hmem)
  · rw [hL, hfirst] at hfront
    rw [← hfront, Function.update_eq_self]

/-- Before `c` in the circle: this is the end of the list if `c` is the front. -/
theorem Represents.insertBefore (h : Represents s L) (hp : s.ring p = none) (hL : L R = u ++ c :: v) {l : List ι}
    (hl : l = u ++ p :: c :: v ∨ l = c :: v ++ u ++ [p]) :
    Represents
      { links := s.links.insertBefore c p, ring := Function.update s.ring p (some R),
        front := Function.update s.front R l.head? } (Function.update L R l) := by
  have hcircle := h.circle R
  have hnodup := h.nodup R
  have hc : c ∈ L R := hL ▸ List.mem_append_right _ List.mem_cons_self
  have hout : p ∉ L R := fun hmem => by
    rw [(h.ring p R).2 hmem] at hp
    cases hp
  have hperm : (c :: v ++ u).Perm (u ++ c :: v) := List.perm_append_comm
  have hcircle' : (s.links.insertBefore c p).Circle (p :: (c :: v ++ u)) := by
    rw [hL, Links.circle_append_comm] at hcircle
    refine hcircle.insertBefore (hperm.nodup_iff.2 (hL ▸ hnodup)) fun hmem => hout ?_
    rw [hL]
    exact hperm.mem_iff.1 hmem
  refine h.insert hp ?_ ?_ (fun z hz => hcircle.insertBefore_frame hc hz) rfl
  · rw [hL]
    obtain rfl | rfl := hl
    · exact List.perm_middle
    · exact (List.perm_append_singleton p _).trans (hperm.cons p)
  · obtain rfl | rfl := hl
    · exact Links.circle_append_comm.1 (show (s.links.insertBefore c p).Circle (p :: c :: v ++ u) from hcircle')
    · exact Links.circle_append_comm.1 (show (s.links.insertBefore c p).Circle ([p] ++ (c :: v ++ u)) from hcircle')

/-! ### The methods -/

/-- The steps that keep the rings disjoint. -/
def Meets (s : IntrusiveRings ι ρ) : RingAct ι ρ → Prop
  | .pushFront R e => (s.front R = some e → s.links.next e = e) ∧
      ∀ R', s.ring e = some R' → R' ≠ R → s.front R ≠ none ∧ s.front R' ≠ some e
  | .pushBack R e => s.front R ≠ some e ∧
      ∀ R', s.ring e = some R' → R' ≠ R → s.front R ≠ none ∧ s.front R' ≠ some e
  | .pushNext R cur n => s.ring cur = some R ∧ n ≠ cur
  | .pushPrev R cur p => s.ring cur = some R ∧ p ≠ cur
  | .elementNext cur n => n ≠ cur
  | .elementPrev cur p => p ≠ cur
  | .ringRemove R e => ∀ R', s.ring e = some R' → R' ≠ R → s.front R' ≠ some e
  | .popFront _ | .popBack _ | .advance _ | .recede _ | .remove _ => True

private theorem remove_setRing (s : IntrusiveRings ι ρ) (R : ρ) (e : ι) :
    (s.setRing e (some R)).remove e = s.ringRemove R e := by
  have hr : (s.setRing e (some R)).ring e = some R := Function.update_self ..
  unfold IntrusiveRings.remove
  rw [hr]
  exact ringRemove_setRing s R e (some R)

private theorem Represents.pushNext (h : Represents s L) (hcur : s.ring c = some R) (hne : p ≠ c) :
    ∃ L', Represents (s.pushNext R c p) L' := by
  have hrem := h.remove p
  have hc : c ∈ (L R).erase p := (List.mem_erase_of_ne hne.symm).2 ((h.ring c R).1 hcur)
  obtain ⟨u, v, hL⟩ := List.append_of_mem hc
  exact ⟨_, hrem.insertAfter (h.free_of_erase hrem) hL⟩

private theorem Represents.pushPrev (h : Represents s L) (hcur : s.ring c = some R) (hne : p ≠ c) :
    ∃ L', Represents (s.pushPrev R c p) L' := by
  have hrem := h.remove p
  have hc : c ∈ (L R).erase p := (List.mem_erase_of_ne hne.symm).2 ((h.ring c R).1 hcur)
  obtain ⟨u, v, hL⟩ := List.append_of_mem hc
  have hfront := hrem.front R
  rw [hL] at hfront
  -- the front stays, so that an element put before it is the last one
  cases u with
  | nil =>
    have hins := hrem.insertBefore (h.free_of_erase hrem) hL (.inr rfl)
    rw [List.nil_append, List.head?_cons] at hfront
    rw [List.append_nil, List.cons_append, List.head?_cons, ← hfront, Function.update_eq_self] at hins
    exact ⟨_, hins⟩
  | cons a u =>
    have hins := hrem.insertBefore (h.free_of_erase hrem) hL (.inl rfl)
    rw [List.cons_append, List.head?_cons] at hfront
    rw [List.cons_append, List.head?_cons, ← hfront, Function.update_eq_self] at hins
    exact ⟨_, hins⟩

omit [DecidableEq ι] in
private theorem Represents.advance (h : Represents s L) (hf : s.front R = some f) :
    ∃ L', Represents (s.setFront R (some (s.links.next f))) L' := by
  have hfront := h.front R
  have hcircle := h.circle R
  rw [hf] at hfront
  obtain ⟨v, hL⟩ := List.head?_eq_some_iff.1 hfront.symm
  rw [hL] at hcircle
  have hrot := h.rotate (u := [f]) (v := v) hL
  have hnext : (v ++ [f]).head? = some (s.links.next f) := by
    cases v with
    | nil => rw [hcircle.1]; rfl
    | cons x v => rw [hcircle.1.1]; rfl
  rw [hnext] at hrot
  exact ⟨_, hrot⟩

omit [DecidableEq ι] in
private theorem Represents.recede (h : Represents s L) (hf : s.front R = some f) :
    ∃ L', Represents (s.setFront R (some (s.links.prev f))) L' := by
  have hfront := h.front R
  have hcircle := h.circle R
  rw [hf] at hfront
  obtain hL | ⟨u, y, hL⟩ := List.eq_nil_or_concat (L R)
  · rw [hL] at hfront
    cases hfront
  · rw [List.concat_eq_append] at hL
    rw [hL] at hfront hcircle
    have hrot := h.rotate (u := u) (v := [y]) hL
    have hprev : s.links.prev f = y := by
      rw [Links.circle_append_comm] at hcircle
      cases u with
      | nil =>
        obtain rfl := Option.some.inj hfront
        exact hcircle.2
      | cons x u =>
        obtain rfl := Option.some.inj hfront
        exact hcircle.1.2
    rw [hprev]
    exact ⟨_, hrot⟩

private theorem pushFront_of_some (s : IntrusiveRings ι ρ) (e : ι) (hf : s.front R = some f) :
    s.pushFront R e =
      { links := (s.ringRemove R e).links.insertBefore f e,
        ring := Function.update (s.ringRemove R e).ring e (some R),
        front := Function.update (s.ringRemove R e).front R (some e) } := by
  have hf' : (s.setRing e (some R)).front R = some f := hf
  unfold IntrusiveRings.pushFront
  dsimp only
  rw [hf']
  dsimp only [IntrusiveRings.pushPrev]
  rw [remove_setRing]
  rfl

private theorem pushBack_of_some (s : IntrusiveRings ι ρ) (e : ι) (hf : s.front R = some f) :
    s.pushBack R e =
      { links := (s.ringRemove R e).links.insertBefore f e,
        ring := Function.update (s.ringRemove R e).ring e (some R),
        front := (s.ringRemove R e).front } := by
  have hf' : (s.setRing e (some R)).front R = some f := hf
  unfold IntrusiveRings.pushBack
  dsimp only
  rw [hf']
  dsimp only [IntrusiveRings.pushPrev]
  rw [remove_setRing]
  rfl

private theorem pushFront_of_none (s : IntrusiveRings ι ρ) (e : ι) (hf : s.front R = none) :
    s.pushFront R e = (s.setRing e (some R)).setFront R (some e) := by
  have hf' : (s.setRing e (some R)).front R = none := hf
  unfold IntrusiveRings.pushFront
  dsimp only
  rw [hf']

private theorem pushBack_of_none (s : IntrusiveRings ι ρ) (e : ι) (hf : s.front R = none) :
    s.pushBack R e = (s.setRing e (some R)).setFront R (some e) := by
  have hf' : (s.setRing e (some R)).front R = none := hf
  unfold IntrusiveRings.pushBack
  dsimp only
  rw [hf']

/-- The first element of a ring comes from no other ring. -/
private theorem Represents.pushFirst (h : Represents s L) (hf : s.front R = none)
    (hother : ∀ R', s.ring e = some R' → R' ≠ R → s.front R ≠ none ∧ s.front R' ≠ some e) :
    ∃ L', Represents ((s.setRing e (some R)).setFront R (some e)) L' := by
  have he : s.ring e = none := by
    cases hr : s.ring e with
    | none => rfl
    | some R' =>
      have hR : R' ≠ R := by
        rintro rfl
        exact (h.sound.front R').1 hf e hr
      exact absurd hf (hother R' hr hR).1
  have hL : L R = [] := List.head?_eq_none_iff.1 ((h.front R).symm.trans hf)
  exact ⟨_, h.insert (R := R) (l := [e]) he (hL ▸ .refl _) (h.free e he) (fun _ _ => ⟨rfl, rfl⟩) rfl⟩

private theorem Represents.pushFront (h : Represents s L) (hm : s.Meets (.pushFront R e)) :
    ∃ L', Represents (s.pushFront R e) L' := by
  obtain ⟨hself, hother⟩ := hm
  cases hf : s.front R with
  | none =>
    rw [pushFront_of_none s e hf]
    exact h.pushFirst hf hother
  | some f =>
    rw [pushFront_of_some s e hf]
    have hrem := h.ringRemove R e fun R' hr hR => (hother R' hr hR).2
    have hfree := h.free_of_erase hrem
    have hfront := h.front R
    rw [hf] at hfront
    obtain ⟨v, hL⟩ := List.head?_eq_some_iff.1 hfront.symm
    by_cases hfe : f = e
    · subst hfe
      -- the only element of the ring: it is put before itself
      have hv : v = [] := by
        have hcircle := h.circle R
        have hnodup := h.nodup R
        rw [hL] at hcircle hnodup
        cases v with
        | nil => rfl
        | cons x v =>
          have hx : s.links.next f = x := hcircle.1.1
          rw [hself hf] at hx
          exact absurd (hx ▸ List.mem_cons_self) (List.nodup_cons.1 hnodup).1
      have herase : (L R).erase f = [] := by rw [hL, hv, List.erase_cons_head]
      rw [Links.insertBefore_self (hrem.free f hfree)]
      refine ⟨_, hrem.insert (R := R) (l := [f]) hfree ?_ (hrem.free f hfree) (fun _ _ => ⟨rfl, rfl⟩) rfl⟩
      rw [herase]
    · have herase : (L R).erase e = [] ++ f :: v.erase e := by
        rw [hL, List.erase_cons_tail (by simpa using hfe), List.nil_append]
      exact ⟨_, hrem.insertBefore hfree herase (.inl rfl)⟩

private theorem Represents.pushBack (h : Represents s L) (hm : s.Meets (.pushBack R e)) :
    ∃ L', Represents (s.pushBack R e) L' := by
  obtain ⟨hself, hother⟩ := hm
  cases hf : s.front R with
  | none =>
    rw [pushBack_of_none s e hf]
    exact h.pushFirst hf hother
  | some f =>
    rw [pushBack_of_some s e hf]
    have hrem := h.ringRemove R e fun R' hr hR => (hother R' hr hR).2
    have hfront := h.front R
    rw [hf] at hfront
    obtain ⟨v, hL⟩ := List.head?_eq_some_iff.1 hfront.symm
    have hfe : f ≠ e := fun heq => hself (heq ▸ hf)
    have herase : (L R).erase e = [] ++ f :: v.erase e := by
      rw [hL, List.erase_cons_tail (by simpa using hfe), List.nil_append]
    have hins := hrem.insertBefore (h.free_of_erase hrem) herase (.inr rfl)
    have hfirst := hrem.front R
    rw [herase, List.nil_append, List.head?_cons] at hfirst
    rw [List.append_nil, List.cons_append, List.head?_cons, ← hfirst, Function.update_eq_self] at hins
    exact ⟨_, hins⟩

/-! ### The other steps break the rings -/

section Breaks

omit [DecidableEq ι] [DecidableEq ρ]

private theorem Sound.ring_front (h : Sound s) (hf : s.front R = some f) : s.ring f = some R :=
  (h.ring f R).2 ⟨f, hf, 0, rfl⟩

private theorem Sound.ring_next (h : Sound s) (hr : s.ring e = some R) : s.ring (s.links.next e) = some R := by
  obtain ⟨f, hf, n, hn⟩ := (h.ring e R).1 hr
  exact (h.ring _ R).2 ⟨f, hf, n + 1, by rw [Function.iterate_succ_apply', hn]⟩

/-- An element that is linked to itself is the front of its ring. -/
theorem Sound.front_of_self (h : Sound s) (hr : s.ring e = some R) (hself : s.links.next e = e) : s.front R = some e := by
  obtain ⟨f, hf, n, hn⟩ := (h.ring e R).1 hr
  have hback (x : ι) (hx : s.links.next x = e) : x = e := by
    have hprev := (h.inverse e).2
    rw [hself] at hprev
    rw [← (h.inverse x).2, hx, hprev]
  suffices f = e by rw [hf, this]
  induction n with
  | zero => exact hn
  | succ n ih =>
    rw [Function.iterate_succ_apply'] at hn
    exact ih (hback _ hn)

/-- An element that has got the owner `R` and was in another ring has not been taken from its front. -/
private theorem Sound.cleanly (h : Sound s) (ht : Sound t) (hr : t.ring e = some R)
    (hlinks : s.front R = none → t.links = s.links) (hfront : ∀ R', R' ≠ R → t.front R' = s.front R') :
    ∀ R', s.ring e = some R' → R' ≠ R → s.front R ≠ none ∧ s.front R' ≠ some e := by
  intro R' hr' hR
  constructor
  · intro hnone
    obtain ⟨f, hf, n, hn⟩ := (h.ring e R').1 hr'
    have howner := (ht.ring e R').2 ⟨f, (hfront R' hR).trans hf, n, by rw [hlinks hnone, hn]⟩
    exact hR (Option.some.inj (howner.symm.trans hr))
  · intro hf
    have howner := ht.ring_front ((hfront R' hR).trans hf)
    exact hR (Option.some.inj (howner.symm.trans hr))

end Breaks

private theorem ringRemove_front_of_ne (s : IntrusiveRings ι ρ) (e : ι) (hR : R' ≠ R) :
    (s.ringRemove R e).front R' = s.front R' := by
  rw [ringRemove_front]
  by_cases hf : s.front R = some e
  · rw [if_pos hf]
    exact Function.update_of_ne hR _ _
  · rw [if_neg hf]

private theorem Represents.pushFront_iff (h : Represents s L) : Sound (s.pushFront R e) ↔ s.Meets (.pushFront R e) := by
  refine ⟨fun ht => ⟨fun hf => ?_, ?_⟩, fun hm => (h.pushFront hm).elim fun _ hL => hL.sound⟩
  · by_contra hne
    have hself := Links.unlink_self s.links e
    rw [pushFront_of_some s e hf, ringRemove_links, Links.insertBefore_self hself] at ht
    have hring : Function.update (s.ringRemove R e).ring e (some R) (s.links.next e) = some R := by
      rw [Function.update_of_ne hne, ringRemove_ring, Function.update_of_ne hne]
      exact h.sound.ring_next (h.sound.ring_front hf)
    obtain ⟨f, hf', n, hn⟩ := (ht.ring _ R).1 hring
    dsimp only at hf'
    rw [Function.update_self] at hf'
    obtain rfl := Option.some.inj hf'
    have hstay : (s.links.unlink e).next^[n] e = e := Function.iterate_fixed hself.1 n
    exact hne (hn.symm.trans hstay)
  · cases hf : s.front R with
    | none =>
      rw [pushFront_of_none s e hf] at ht
      have hcl := h.sound.cleanly (R := R) (e := e) ht (Function.update_self ..) (fun _ => rfl)
        (fun R' hR => Function.update_of_ne hR _ _)
      rwa [hf] at hcl
    | some f =>
      rw [pushFront_of_some s e hf] at ht
      have hcl := h.sound.cleanly (R := R) (e := e) ht (Function.update_self ..)
        (fun hnone => by rw [hf] at hnone; cases hnone)
        (fun R' hR => (Function.update_of_ne hR _ _).trans (ringRemove_front_of_ne s e hR))
      rwa [hf] at hcl

private theorem Represents.pushBack_iff (h : Represents s L) : Sound (s.pushBack R e) ↔ s.Meets (.pushBack R e) := by
  refine ⟨fun ht => ⟨fun hf => ?_, ?_⟩, fun hm => (h.pushBack hm).elim fun _ hL => hL.sound⟩
  · have hself := Links.unlink_self s.links e
    rw [pushBack_of_some s e hf, ringRemove_links, Links.insertBefore_self hself] at ht
    have hfront := ht.front_of_self (R := R) (e := e) (Function.update_self ..) hself.1
    dsimp only at hfront
    rw [ringRemove_front, if_pos hf, Function.update_self] at hfront
    split_ifs at hfront with hnext
    exact hnext (Option.some.inj hfront)
  · cases hf : s.front R with
    | none =>
      rw [pushBack_of_none s e hf] at ht
      have hcl := h.sound.cleanly (R := R) (e := e) ht (Function.update_self ..) (fun _ => rfl)
        (fun R' hR => Function.update_of_ne hR _ _)
      rwa [hf] at hcl
    | some f =>
      rw [pushBack_of_some s e hf] at ht
      have hcl := h.sound.cleanly (R := R) (e := e) ht (Function.update_self ..)
        (fun hnone => by rw [hf] at hnone; cases hnone)
        (fun R' hR => ringRemove_front_of_ne s e hR)
      rwa [hf] at hcl

private theorem ring_of_remove (h : Represents s L) (hr : (s.remove p).ring c = some R) :
    s.ring c = some R :=
  (h.ring c R).2 (List.mem_of_mem_erase (((h.remove p).ring c R).1 hr))

/-- An element is not put next to itself. -/
private theorem Represents.ne_of_sound (h : Represents s L) {k : Links ι} (hself : k.next p = p)
    (ht : Sound { (s.remove p).setRing p (some R) with links := k }) : False := by
  have hrem := h.remove p
  have hfront := ht.front_of_self (R := R) (e := p) (Function.update_self ..) hself
  have howner := hrem.sound.ring_front hfront
  rw [h.free_of_erase hrem] at howner
  cases howner

private theorem Represents.pushNext_iff (h : Represents s L) : Sound (s.pushNext R c p) ↔ s.Meets (.pushNext R c p) := by
  refine ⟨fun ht => ?_, fun hm => (h.pushNext hm.1 hm.2).elim fun _ hL => hL.sound⟩
  have hnext : ((s.remove p).links.insertAfter c p).next c = p := by rw [Links.insertAfter_next, if_pos rfl]
  have hne : p ≠ c := by
    rintro rfl
    exact h.ne_of_sound hnext ht
  refine ⟨ring_of_remove (p := p) h ?_, hne⟩
  have hring : (s.pushNext R c p).ring c = (s.remove p).ring c := Function.update_of_ne hne.symm _ _
  rw [← hring]
  cases hr : (s.pushNext R c p).ring c with
  | none => exact absurd (hnext.symm.trans (ht.free c hr).1) hne
  | some R'' =>
    have howner := ht.ring_next hr
    have howner' : (s.pushNext R c p).ring p = some R := Function.update_self ..
    rw [show (s.pushNext R c p).links.next c = p from hnext, howner'] at howner
    exact howner.symm

private theorem Represents.pushPrev_iff (h : Represents s L) : Sound (s.pushPrev R c p) ↔ s.Meets (.pushPrev R c p) := by
  refine ⟨fun ht => ?_, fun hm => (h.pushPrev hm.1 hm.2).elim fun _ hL => hL.sound⟩
  have hnext : ((s.remove p).links.insertBefore c p).next p = c := by rw [Links.insertBefore_next, if_pos rfl]
  have hne : p ≠ c := by
    rintro rfl
    exact h.ne_of_sound hnext ht
  refine ⟨ring_of_remove (p := p) h ?_, hne⟩
  have hring : (s.pushPrev R c p).ring c = (s.remove p).ring c := Function.update_of_ne hne.symm _ _
  have howner := ht.ring_next (show (s.pushPrev R c p).ring p = some R from Function.update_self ..)
  rw [show (s.pushPrev R c p).links.next p = c from hnext, hring] at howner
  exact howner

private theorem Represents.ringRemove_iff (h : Represents s L) : Sound (s.ringRemove R e) ↔ s.Meets (.ringRemove R e) := by
  refine ⟨fun ht R' hr hR hf => ?_, fun hm => (h.ringRemove R e hm).sound⟩
  have howner := ht.ring_front ((ringRemove_front_of_ne s e hR).trans hf)
  rw [ringRemove_ring, Function.update_self] at howner
  cases howner

/-! ### Runs -/

/-- A step keeps the lists, up to their change, exactly if it meets the condition. -/
theorem Represents.act_iff (h : Represents s L) {l : RingAct ι ρ} (hn : s.act l = some t) :
    (t.Sound ↔ s.Meets l) ∧ (s.Meets l → ∃ L', Represents t L') := by
  cases l with
  | pushFront R e =>
    obtain rfl := Option.some.inj hn
    exact ⟨h.pushFront_iff, h.pushFront⟩
  | pushBack R e =>
    obtain rfl := Option.some.inj hn
    exact ⟨h.pushBack_iff, h.pushBack⟩
  | popFront R =>
    obtain ⟨⟨ret, t⟩, hpop, rfl⟩ := Option.map_eq_some_iff.1 hn
    obtain ⟨f, hf, heq⟩ := Option.map_eq_some_iff.1 hpop
    obtain ⟨rfl, rfl⟩ := Prod.mk.inj heq
    -- `PopFront` advances the front, and then removes the element
    obtain ⟨L', hL'⟩ := h.advance hf
    have hrem := hL'.remove f
    exact ⟨iff_of_true hrem.sound trivial, fun _ => ⟨_, hrem⟩⟩
  | popBack R =>
    obtain ⟨⟨ret, t⟩, hpop, rfl⟩ := Option.map_eq_some_iff.1 hn
    obtain ⟨f, hf, heq⟩ := Option.map_eq_some_iff.1 hpop
    obtain ⟨rfl, rfl⟩ := Prod.mk.inj heq
    have hrem := h.remove (s.links.prev f)
    exact ⟨iff_of_true hrem.sound trivial, fun _ => ⟨_, hrem⟩⟩
  | advance R =>
    obtain ⟨f, hf, rfl⟩ := Option.map_eq_some_iff.1 hn
    obtain ⟨L', hL'⟩ := h.advance hf
    exact ⟨iff_of_true hL'.sound trivial, fun _ => ⟨_, hL'⟩⟩
  | recede R =>
    obtain ⟨f, hf, rfl⟩ := Option.map_eq_some_iff.1 hn
    obtain ⟨L', hL'⟩ := h.recede hf
    exact ⟨iff_of_true hL'.sound trivial, fun _ => ⟨_, hL'⟩⟩
  | pushNext R cur n =>
    obtain rfl := Option.some.inj hn
    exact ⟨h.pushNext_iff, fun hm => h.pushNext hm.1 hm.2⟩
  | pushPrev R cur p =>
    obtain rfl := Option.some.inj hn
    exact ⟨h.pushPrev_iff, fun hm => h.pushPrev hm.1 hm.2⟩
  | elementNext cur n =>
    obtain ⟨R, hR, rfl⟩ := Option.map_eq_some_iff.1 hn
    exact ⟨h.pushNext_iff.trans (and_iff_right hR), h.pushNext hR⟩
  | elementPrev cur p =>
    obtain ⟨R, hR, rfl⟩ := Option.map_eq_some_iff.1 hn
    exact ⟨h.pushPrev_iff.trans (and_iff_right hR), h.pushPrev hR⟩
  | ringRemove R e =>
    obtain rfl := Option.some.inj hn
    exact ⟨h.ringRemove_iff, fun hm => ⟨_, h.ringRemove R e hm⟩⟩
  | remove e =>
    obtain rfl := Option.some.inj hn
    have hrem := h.remove e
    exact ⟨iff_of_true hrem.sound trivial, fun _ => ⟨_, hrem⟩⟩

omit [DecidableEq ι] [DecidableEq ρ] in
private theorem represents_init : Represents (init : IntrusiveRings ι ρ) (fun _ => []) where
  nodup _ := List.nodup_nil
  ring e R := iff_of_false (fun h => by cases h) List.not_mem_nil
  circle _ := trivial
  front _ := rfl
  free _ _ := ⟨rfl, rfl⟩

private theorem exists_represents (h : (ringMachine ι ρ).ReachableBy Meets s) : ∃ L, Represents s L := by
  refine h.invariant (I := fun s => ∃ L, Represents s L) ?_ ?_
  · rintro s rfl
    exact ⟨_, represents_init⟩
  · rintro s l t ⟨L, hL⟩ hm hn
    exact (hL.act_iff hn).2 hm

end IntrusiveRings

/-- As long as the steps meet the condition the rings are disjoint, and a further step keeps them so exactly if it meets the
condition too. -/
theorem rings_disjoint {ι ρ : Type} [DecidableEq ι] [DecidableEq ρ] {s : IntrusiveRings ι ρ}
    (h : (ringMachine ι ρ).ReachableBy IntrusiveRings.Meets s) :
    s.Sound ∧ ∀ l t, s.act l = some t → (t.Sound ↔ s.Meets l) := by
  obtain ⟨L, hL⟩ := IntrusiveRings.exists_represents h
  exact ⟨hL.sound, fun l t hn => (hL.act_iff hn).1⟩

/-- Two elements in two rings, of which one is moved to the other ring; to push the front of that ring to its back would then
break it. -/
theorem rings_disjoint_two :
    let s := ((IntrusiveRings.init.pushFront true 7).pushFront false 8 : IntrusiveRings ℕ Bool)
    let t := s.pushNext true 7 8
    s.Sound ∧ s.front true = some 7 ∧ s.front false = some 8 ∧ t.Sound ∧ t.front true = some 7 ∧ t.front false = none ∧
      t.links.next 7 = 8 ∧ ¬ (t.pushBack true 7).Sound := by
  intro s t
  have hs : (ringMachine ℕ Bool).ReachableBy IntrusiveRings.Meets s := by
    refine .step (l := .pushFront false 8) (.step (l := .pushFront true 7) (.init rfl) ?_ rfl) ?_ rfl
    · exact ⟨fun h => (by cases h), fun _ h => (by cases h)⟩
    · exact ⟨fun h => (by cases h), fun _ h => (by cases h)⟩
  have ht : (ringMachine ℕ Bool).ReachableBy IntrusiveRings.Meets t :=
    .step (l := .pushNext true 7 8) hs ⟨rfl, by decide⟩ rfl
  refine ⟨(rings_disjoint hs).1, rfl, rfl, (rings_disjoint ht).1, rfl, rfl, rfl, fun h => ?_⟩
  exact (((rings_disjoint ht).2 (.pushBack true 7) _ rfl).1 h).1 rfl

/-- The only element of a ring is pushed to its back: the ring is empty, and the element still has it as its owner. -/
theorem not_forall_sound : ¬ ∀ s : IntrusiveRings ℕ Bool, (ringMachine ℕ Bool).Reachable s → s.Sound := by
  intro h
  have hreach : (ringMachine ℕ Bool).Reachable ((IntrusiveRings.init.pushFront true 7).pushBack true 7) :=
    .step (l := .pushBack true 7) (.step (l := .pushFront true 7) (.init rfl) trivial rfl) trivial rfl
  exact ((h _ hreach).front true).1 rfl 7 rfl

end ProcessNetwork
