import ProcessNetwork.RemoteGrowth
import ProcessNetwork.LocalGrowth

/-!
# Growing never shrinks

No step of a local queue lowers its length or its threshold.

A remote queue recomputes both parts from the length that is asked for, so a growth may lower them.  It does not when the
length is not below the present one, or when both parts fall below the new threshold (`Link.Rising`); and then the other
end does not shrink either when it hears of the growth, as long as growths do not cross (`Link.Rises`).
-/

namespace ProcessNetwork

open Framing (headers)

namespace Alpha

variable {alpha : Alpha}

/-- A longer queue has no smaller parts, up to the longest `unsigned` one. -/
def Steady (alpha : Alpha) : Prop := ∀ ⦃len len' : Nat⦄, len ≤ len' → len' < 2 ^ 32 → alpha.Widens len len'

private theorem steady_of_exact (ha : alpha.arithmetic = .exact) : alpha.Steady := fun _ _ hlen _ => widens_of_exact ha hlen

/-- One more byte makes the part of the writer longer by one at most, as long as the error of a product is smaller than the
part of a byte that is left to the reader. -/
theorem share_succ_le (ha : alpha.arithmetic = .rounded) (h : 2 ^ 21 * alpha.num ≤ (2 ^ 21 - 1) * alpha.den) {len : Nat}
    (hlen : len + 1 < 2 ^ 32) : alpha.share (len + 1) ≤ alpha.share len + 1 := by
  obtain ⟨-, e, he⟩ := alpha.binary ha
  have hle := alpha.share_le hlen
  obtain hzero | ⟨part, hpart⟩ : alpha.share (len + 1) = 0 ∨ ∃ part, alpha.share (len + 1) = part + 1 := by
    cases alpha.share (len + 1) with
    | zero => exact .inl rfl
    | succ part => exact .inr ⟨part, rfl⟩
  · rw [hzero]
    exact Nat.zero_le _
  rw [hpart] at hle ⊢
  have hshare (n : Nat) : alpha.share n = roundTo 53 (n * alpha.num) / alpha.den := by rw [share, ha]
  -- the product for one byte less is not below the whole number `part`, and is not rounded below it
  have hproduct : part * alpha.den ≤ len * alpha.num := by
    have hround : (part + 1) * alpha.den ≤ roundTo 53 ((len + 1) * alpha.num) := by
      rw [← hpart, hshare]
      exact Nat.div_mul_le_self _ _
    have herror := roundTo_error 53 ((len + 1) * alpha.num)
    have hsize : (len + 1) * alpha.num ≤ 2 ^ 32 * alpha.den := Nat.mul_le_mul hlen.le alpha.num_le
    have hsucc : (len + 1) * alpha.num = len * alpha.num + alpha.num := Nat.succ_mul _ _
    rw [Nat.succ_mul part] at hround
    omega
  rw [hshare]
  refine Nat.succ_le_succ ((Nat.le_div_iff_mul_le alpha.den_pos).2 ?_)
  rw [he] at hproduct ⊢
  exact le_roundTo (p := 53) (by decide) (by omega) hproduct

/-- Rounding only makes a part smaller for an `alpha` that is almost one. -/
theorem steady_of_le (h : 2 ^ 21 * alpha.num ≤ (2 ^ 21 - 1) * alpha.den) : alpha.Steady := by
  cases ha : alpha.arithmetic with
  | exact => exact steady_of_exact ha
  | rounded =>
    intro len len' hlen hlt
    have hmono : alpha.share len ≤ alpha.share len' := by
      rw [share, share, ha]
      exact Nat.div_le_div_right (roundTo_mono (by decide) (Nat.mul_le_mul_right _ hlen))
    have hstep (d : Nat) (hd : len + d < 2 ^ 32) : alpha.share (len + d) ≤ alpha.share len + d := by
      induction d with
      | zero => exact Nat.le_refl _
      | succ d ih =>
        have hone : alpha.share (len + d + 1) ≤ alpha.share (len + d) + 1 := share_succ_le ha h hd
        have hall := ih (by omega)
        show alpha.share (len + d + 1) ≤ alpha.share len + (d + 1)
        omega
    have hall := hstep (len' - len) (by omega)
    rw [Nat.add_sub_cancel' hlen] at hall
    exact ⟨hmono, by omega⟩

private theorem steady_half (arithmetic : Arithmetic) : (half arithmetic).Steady := by
  refine steady_of_le ?_
  show 2 ^ 21 * 1 ≤ (2 ^ 21 - 1) * 2
  decide

/-- The double `1 - 5 / 2 ^ 29`. -/
def almostOne : Alpha := ⟨2 ^ 29 - 5, 2 ^ 29, by decide, by decide, .rounded, fun _ => ⟨by decide, 29, rfl⟩⟩

/-- One more byte is one byte less for the reader. -/
theorem not_steady_almostOne : ¬ almostOne.Steady := by
  intro h
  have hwidens : almostOne.Widens (2 ^ 29 + 5) (2 ^ 29 + 6) := h (by decide) (by decide)
  unfold Widens at hwidens
  revert hwidens
  decide

end Alpha

namespace Lengths

variable {alpha : Alpha} {s s' s'' : Lengths} {c len len' mt mt' : Nat} {p : Packet} {ps ps' : List Packet}

/-- The part of one side. -/
def part (s : Lengths) : Mode → Nat
  | .read => s.readerlength
  | .write => s.writerlength

/-- Nothing is lower in `s` than in `s'`. -/
structure Le (s s' : Lengths) : Prop where
  part : ∀ m, s.part m ≤ s'.part m
  maxThreshold : s.maxThreshold ≤ s'.maxThreshold

private theorem Le.refl (s : Lengths) : s.Le s := ⟨fun _ => Nat.le_refl _, Nat.le_refl _⟩

private theorem Le.trans (h : s.Le s') (h' : s'.Le s'') : s.Le s'' :=
  ⟨fun m => (h.part m).trans (h'.part m), h.maxThreshold.trans h'.maxThreshold⟩

private theorem Le.sum (h : s.Le s') : s.sum ≤ s'.sum := Nat.add_le_add (h.part .read) (h.part .write)

private theorem part_grow (m : Mode) : (s.grow alpha len mt).part m =
    RemoteQueue.queueLength len (max s.maxThreshold mt) alpha m := by
  cases m <;> rfl

private theorem grow_mono (hlen : alpha.Widens len len') (hmax : max s.maxThreshold mt ≤ max s'.maxThreshold mt') :
    (s.grow alpha len mt).Le (s'.grow alpha len' mt') := by
  refine ⟨fun m => ?_, hmax⟩
  rw [part_grow, part_grow]
  exact RemoteQueue.queueLength_mono hlen hmax m

private theorem le_sum_grow : len ≤ (s.grow alpha len mt).sum := RemoteQueue.le_parts len (max s.maxThreshold mt) alpha

/-- A threshold can make the parts longer than they have to be, by that much each. -/
theorem sum_grow_le (h : len < 2 ^ 32) : (s.grow alpha len mt).sum ≤ len + 2 * max s.maxThreshold mt := by
  have hshare := alpha.share_le h
  show max (len - alpha.share len) (max s.maxThreshold mt) + max (alpha.share len) (max s.maxThreshold mt) ≤ _
  omega

/-- The parts are what their sum gives at most, unless it overflows. -/
def Proper (alpha : Alpha) (s : Lengths) : Prop := s.sum < 2 ^ 32 → s.Le (s.grow alpha s.sum s.maxThreshold)

private theorem proper_grow (ha : alpha.Steady) : (s.grow alpha len mt).Proper alpha := fun hlt =>
  grow_mono (ha le_sum_grow hlt) (Nat.le_of_eq (Nat.max_self _).symm)

private theorem part_raise (m : Mode) : (s.raise c).part m = s.part m := by
  cases m <;> rfl

private theorem le_raise : s.Le (s.raise c) := ⟨fun m => Nat.le_of_eq (part_raise m).symm, Nat.le_max_left _ _⟩

private theorem Proper.raise (h : s.Proper alpha) : (s.raise c).Proper alpha := by
  refine fun hlt => ⟨fun m => ?_, Nat.le_max_left _ _⟩
  rw [part_raise]
  refine ((h hlt).part m).trans ((grow_mono (.refl alpha _) ?_).part m)
  exact max_le_max (Nat.le_max_left _ _) (Nat.le_max_left _ _)

/-- What holds of a growth also holds when the threshold was higher. -/
theorem raise_le_grow (h : s.Le (s.grow alpha len mt)) : (s.raise c).Le ((s.raise c).grow alpha len mt) := by
  refine ⟨fun m => ?_, Nat.le_max_left _ _⟩
  rw [part_raise]
  exact (h.part m).trans ((grow_mono (.refl alpha _) (max_le_max (Nat.le_max_left _ _) (Nat.le_refl _))).part m)

private theorem part_settle_le_raise (m : Mode) : (s.settle alpha ps).part m ≤ ((s.raise c).settle alpha ps).part m := by
  induction ps using List.reverseRecOn with
  | nil => exact Nat.le_of_eq (part_raise m).symm
  | append_singleton ps p ih =>
    rw [settle_append, settle_append]
    show (Lengths.hear alpha (s.settle alpha ps) p).part m ≤ (Lengths.hear alpha ((s.raise c).settle alpha ps) p).part m
    by_cases ht : p.type = .grow
    · unfold hear
      rw [if_pos ht, if_pos ht]
      refine (grow_mono (.refl alpha _) (max_le_max ?_ (Nat.le_refl _))).part m
      rw [maxThreshold_settle_raise]
      exact Nat.le_max_left _ _
    · rw [hear_of_ne ht, hear_of_ne ht]
      exact ih

end Lengths

variable {k : KernelBase} {v v' : Endpoint} {l l' : Link} {act : SideAct} {inbox wire rest sent : Wire} {p : Packet}
  {peerEnded abandons : Bool} {growth : Option (Nat × Nat)} {r : Endpoint.Report} {mode : Mode} {alpha : Alpha} {m : Mode}

namespace Link

/-- The growths do not cross; the length is not below the present one, or both parts are below the new threshold; and
nothing overflows. -/
structure Rising (l : Link) (m : Mode) (queueLen maxThresh : Nat) : Prop where
  uncrossed : l.Uncrossed m
  rising : (l.endpoint m).lengths.sum ≤ queueLen ∨
    max (l.endpoint m).readerlength (l.endpoint m).writerlength ≤ max (l.endpoint m).maxThreshold maxThresh
  bound : queueLen + 4 * max (l.endpoint m).maxThreshold maxThresh < 2 ^ 32

/-- Only the end `m` is growing, and what it has told, or will tell, the other one does not lower the lengths there. -/
structure Rises (l : Link) (m : Mode) : Prop where
  steady : l.writer.alpha.Steady
  uncrossed : l.Uncrossed m
  proper : ∀ m', (l.endpoint m').lengths.Proper l.writer.alpha
  bound : (l.endpoint m).pendingGrow = true →
    (l.endpoint m).lengths.sum + 2 * (l.endpoint m).maxThreshold < 2 ^ 32
  within : (l.endpoint m).lengths.sum < 2 ^ 32 → (l.endpoint m.other).lengths.Le
    ((l.endpoint m.other).lengths.grow l.writer.alpha (l.endpoint m).lengths.sum (l.endpoint m).maxThreshold)
  told : ∀ p ∈ headers (l.sent m), p.type = .grow →
    p.queueSize ≤ (l.endpoint m).lengths.sum ∧ p.queueSize + 2 * (l.endpoint m).maxThreshold < 2 ^ 32 ∧
      (l.endpoint m.other).lengths.Le ((l.endpoint m.other).lengths.grow l.writer.alpha p.queueSize p.maxThreshold)
  ascending : (headers (l.sent m)).Pairwise fun p p' => p.type = .grow → p'.type = .grow → p.queueSize ≤ p'.queueSize
  settled : (l.endpoint m).pendingGrow = false → (l.endpoint m).lengths.Le (l.settled m)
  le : (l.settled m).maxThreshold ≤ (l.endpoint m).maxThreshold

/-- Nothing is lowered from `l` to `l'`, and the sums overflow only where they did before. -/
def Up (l l' : Link) : Prop := ∀ m, (l.endpoint m).lengths.Le (l'.endpoint m).lengths ∧
  ((l'.endpoint m).lengths.sum = (l.endpoint m).lengths.sum ∨ (l'.endpoint m).lengths.sum < 2 ^ 32)

end Link

/-- A growth that meets the condition lowers nothing. -/
theorem Link.Rising.le {len mt : Nat} (h : l.Rising m len mt) (ha : alpha.Steady)
    (hp : (l.endpoint m).lengths.Proper alpha) :
    (l.endpoint m).lengths.Le ((l.endpoint m).lengths.grow alpha len mt) ∧
      ((l.endpoint m).lengths.grow alpha len mt).sum + 2 * ((l.endpoint m).lengths.grow alpha len mt).maxThreshold < 2 ^ 32 ∧
      (l.endpoint m).lengths.sum ≤ ((l.endpoint m).lengths.grow alpha len mt).sum := by
  have hbound := h.bound
  have hsum : ((l.endpoint m).lengths.grow alpha len mt).sum ≤ len + 2 * max (l.endpoint m).maxThreshold mt :=
    Lengths.sum_grow_le (by omega)
  have hle : (l.endpoint m).lengths.Le ((l.endpoint m).lengths.grow alpha len mt) := by
    rcases h.rising with hr | hr
    · refine (hp (by omega)).trans (Lengths.grow_mono (ha hr (by omega)) ?_)
      rw [Nat.max_self]
      exact Nat.le_max_left _ _
    · refine ⟨fun m' => ?_, Nat.le_max_left _ _⟩
      rw [Lengths.part_grow]
      refine Nat.le_trans ?_ (RemoteQueue.maxThreshold_le_queueLength _ _ _ _)
      refine Nat.le_trans ?_ hr
      cases m' with
      | read => exact Nat.le_max_left _ _
      | write => exact Nat.le_max_right _ _
  refine ⟨hle, ?_, hle.sum⟩
  show _ + 2 * max (l.endpoint m).maxThreshold mt < _
  omega

private theorem ascending_of_forall {ps : List Packet} (h : ∀ p ∈ ps, p.type ≠ .grow) :
    ps.Pairwise fun p p' => p.type = .grow → p'.type = .grow → p.queueSize ≤ p'.queueSize := by
  induction ps with
  | nil => exact .nil
  | cons p ps ih =>
    exact .cons (fun _ _ ht => absurd ht (h p List.mem_cons_self)) (ih fun p hp => h p (List.mem_cons_of_mem _ hp))

private theorem ascending_append (h : (headers inbox).Pairwise fun p p' => p.type = .grow → p'.type = .grow →
      p.queueSize ≤ p'.queueSize) (hsent : NoGrow sent) :
    (headers (inbox ++ sent)).Pairwise fun p p' => p.type = .grow → p'.type = .grow → p.queueSize ≤ p'.queueSize := by
  rw [Framing.headers_append]
  exact List.pairwise_append.2 ⟨h, ascending_of_forall hsent, fun _ _ p' hp' _ ht => absurd ht (hsent p' hp')⟩

private theorem mem_of_sent {wire : Wire} (h : wire = inbox ++ sent) (hsent : NoGrow sent) (hp : p ∈ headers wire)
    (ht : p.type = .grow) : p ∈ headers inbox := by
  rw [h, Framing.headers_append] at hp
  exact (List.mem_append.1 hp).resolve_right fun hp => hsent p hp ht

private theorem Link.Up.of_end (hm : (l.endpoint m).lengths.Le (l'.endpoint m).lengths ∧
      ((l'.endpoint m).lengths.sum = (l.endpoint m).lengths.sum ∨ (l'.endpoint m).lengths.sum < 2 ^ 32))
    (hother : l'.endpoint m.other = l.endpoint m.other) : l.Up l' := by
  intro m'
  by_cases h : m' = m
  · subst h
    exact hm
  · obtain rfl : m' = m.other := by cases m <;> cases m' <;> simp_all [Mode.other]
    rw [hother]
    exact ⟨.refl _, .inl rfl⟩

/-- What holds of both ends after a step holds of the end that took it and held of the other one. -/
theorem Mode.forall_of {P : Mode → Prop} (h : P m) (hother : P m.other) (m' : Mode) : P m' := by
  cases m <;> cases m' <;> first | exact h | exact hother

namespace Link.Rises

/-- The end that grows keeps its lengths and sends no growth. -/
private theorem leader_still (h : l.Rises m) (halpha : l'.writer.alpha = l.writer.alpha)
    (hother : l'.endpoint m.other = l.endpoint m.other) (hsent : l'.sent m = l.sent m ++ sent) (hnew : NoGrow sent)
    (hrest : NoGrow (l'.sent m.other)) (hlen : (l'.endpoint m).lengths = (l.endpoint m).lengths)
    (hpend : (l'.endpoint m).pendingGrow = (l.endpoint m).pendingGrow) : l'.Rises m ∧ l.Up l' := by
  have hmt : (l'.endpoint m).maxThreshold = (l.endpoint m).maxThreshold := congrArg Lengths.maxThreshold hlen
  have hset : l'.settled m = l.settled m :=
    (settled_of_sent halpha hother hsent).trans (Lengths.settle_of_forall hnew)
  refine ⟨⟨halpha ▸ h.steady, ⟨by rw [hother]; exact h.uncrossed.1, hrest⟩, ?_, ?_, ?_, ?_, ?_, ?_, ?_⟩,
    .of_end ⟨hlen ▸ .refl _, .inl (by rw [hlen])⟩ hother⟩
  · rw [halpha]
    exact Mode.forall_of (m := m) (by rw [hlen]; exact h.proper m) (by rw [hother]; exact h.proper m.other)
  · rw [hpend, hlen, hmt]
    exact h.bound
  · rw [hother, hlen, hmt, halpha]
    exact h.within
  · intro p hp ht
    rw [hother, hlen, hmt, halpha]
    exact h.told p (mem_of_sent hsent hnew hp ht) ht
  · rw [hsent]
    exact ascending_append h.ascending hnew
  · rw [hpend, hlen, hset]
    exact h.settled
  · rw [hset, hmt]
    exact h.le

/-- The end that grows does so again. -/
private theorem leader_grows {len mt : Nat} (h : l.Rises m) (halpha : l'.writer.alpha = l.writer.alpha)
    (hother : l'.endpoint m.other = l.endpoint m.other) (hsent : l'.sent m = l.sent m ++ sent) (hnew : NoGrow sent)
    (hrest : NoGrow (l'.sent m.other)) (hrise : l.Rising m len mt)
    (hlen : (l'.endpoint m).lengths = (l.endpoint m).lengths.grow l.writer.alpha len mt)
    (hpend : (l'.endpoint m).pendingGrow = true) : l'.Rises m ∧ l.Up l' := by
  obtain ⟨hle, hbound, hsum⟩ := hrise.le h.steady (h.proper m)
  rw [← hlen] at hle hbound hsum
  have hmt : (l.endpoint m).maxThreshold ≤ (l'.endpoint m).maxThreshold := hle.maxThreshold
  change _ + 2 * (l'.endpoint m).maxThreshold < _ at hbound
  refine ⟨⟨halpha ▸ h.steady, ⟨by rw [hother]; exact h.uncrossed.1, hrest⟩, ?_, fun _ => hbound, fun hlt => ?_, ?_, ?_,
    fun hp => absurd (hp.symm.trans hpend) (by decide), ?_⟩, .of_end ⟨hle, .inr (by omega)⟩ hother⟩
  · rw [halpha]
    exact Mode.forall_of (m := m) (by rw [hlen]; exact Lengths.proper_grow h.steady)
      (by rw [hother]; exact h.proper m.other)
  · rw [hother, halpha]
    exact (h.within (by omega)).trans (Lengths.grow_mono (h.steady hsum hlt) (max_le_max (Nat.le_refl _) hmt))
  · intro p hp ht
    obtain ⟨h1, h2, h3⟩ := h.told p (mem_of_sent hsent hnew hp ht) ht
    rw [hother, halpha]
    exact ⟨h1.trans hsum, by omega, h3⟩
  · rw [hsent]
    exact ascending_append h.ascending hnew
  · rw [settled_of_sent halpha hother hsent, Lengths.settle_of_forall hnew]
    exact h.le.trans hmt

/-- The end that grows tells the other one the sum of its parts. -/
private theorem leader_tells (h : l.Rises m) (halpha : l'.writer.alpha = l.writer.alpha)
    (hother : l'.endpoint m.other = l.endpoint m.other) (hsent : l'.sent m = l.sent m ++ sent)
    (hrest : NoGrow (l'.sent m.other)) {ps : List Packet} (hnew : headers sent = p :: ps)
    (hps : ∀ p ∈ ps, p.type ≠ .grow) (ht : p.type = .grow) (hsize : p.queueSize = u32 (l.endpoint m).lengths.sum)
    (hm : p.maxThreshold = (l.endpoint m).maxThreshold) (hlen : (l'.endpoint m).lengths = (l.endpoint m).lengths)
    (hp : (l.endpoint m).pendingGrow = true) (hp' : (l'.endpoint m).pendingGrow = false) :
    l'.Rises m ∧ l.Up l' := by
  have hbound := h.bound hp
  rw [u32_of_lt (by omega)] at hsize
  have hmt : (l'.endpoint m).maxThreshold = (l.endpoint m).maxThreshold := congrArg Lengths.maxThreshold hlen
  have hset : l'.settled m =
      (l.settled m).grow l.writer.alpha (l.endpoint m).lengths.sum (l.endpoint m).maxThreshold := by
    rw [settled_of_sent halpha hother hsent, hnew, Lengths.settle_cons, Lengths.settle_of_forall hps, Lengths.hear,
      if_pos ht, hsize, hm]
  refine ⟨⟨halpha ▸ h.steady, ⟨by rw [hother]; exact h.uncrossed.1, hrest⟩, ?_,
    fun hp => absurd (hp.symm.trans hp') (by decide), ?_, ?_, ?_, fun _ => ?_, ?_⟩,
    .of_end ⟨hlen ▸ .refl _, .inl (by rw [hlen])⟩ hother⟩
  · rw [halpha]
    exact Mode.forall_of (m := m) (by rw [hlen]; exact h.proper m) (by rw [hother]; exact h.proper m.other)
  · rw [hother, hlen, hmt, halpha]
    exact h.within
  · intro q hq hqt
    rw [hother, hlen, hmt, halpha]
    rw [hsent, Framing.headers_append, hnew] at hq
    rcases List.mem_append.1 hq with hq | hq
    · exact h.told q hq hqt
    · obtain rfl : q = p := (List.mem_cons.1 hq).resolve_right fun hq => hps q hq hqt
      rw [hsize, hm]
      exact ⟨Nat.le_refl _, hbound, h.within (by omega)⟩
  · rw [hsent, Framing.headers_append, hnew]
    refine List.pairwise_append.2
      ⟨h.ascending, .cons (fun q hq _ hqt => absurd hqt (hps q hq)) (ascending_of_forall hps), ?_⟩
    intro q hq q' hq' hqt hqt'
    obtain rfl : q' = p := (List.mem_cons.1 hq').resolve_right fun hq => hps q' hq hqt'
    rw [hsize]
    exact (h.told q hq hqt).1
  · rw [hset, hlen]
    exact (h.proper m (by omega)).trans
      (Lengths.grow_mono (.refl _ _) (max_le_iff.2 ⟨Nat.le_max_right _ _, Nat.le_max_right _ _⟩))
  · rw [hset, hmt]
    exact Nat.max_le.2 ⟨h.le, Nat.le_refl _⟩

/-- The end that grows takes a step. -/
private theorem leader (h : l.Rises m) (hf : l.Framed) (hlim : l.Limited)
    (hgrow : ∀ len mt, growth = some (len, mt) → l.Rising m len mt)
    (hs : LinkStep growth abandons l ⟨m, act⟩ l') : l'.Rises m ∧ l.Up l' := by
  have halpha := hs.alpha_eq
  obtain ⟨v, rest, new, peerEnded, hv, rfl, hother, hsent, rfl⟩ := hs.endpointStep
  cases hv.growthStep with
  | still hlen hpend hrest hnew =>
    exact h.leader_still halpha hother hsent hnew (h.uncrossed.2.headers_eq hrest) hlen hpend
  | grows hg hlen hpend hrest hnew =>
    rw [hf.alpha_eq m] at hlen
    exact h.leader_grows halpha hother hsent (.of_headers (by rw [hnew]; rfl)) (by rw [hrest]; exact h.uncrossed.2)
      (hgrow _ _ hg) hlen hpend
  | hears hin ht => exact absurd ht (h.uncrossed.2 _ (by rw [hin]; exact List.mem_cons_self))
  | tells hp hp' hlen hrest hnew ht hsize hm hps =>
    exact h.leader_tells halpha hother hsent (by rw [hrest]; exact h.uncrossed.2) hnew hps ht hsize hm hlen hp hp'
  | @raises p hm hin ht hlen hpend hnew =>
    subst hm
    exact h.leader_still halpha hother hsent (.of_headers (by rw [hnew]; rfl))
      (h.uncrossed.2.headers_eq (.inr ⟨p, by rw [ht]; decide, hin⟩)) (hlen.trans (raise_eq hlim h.le hin ht)) hpend

/-- The other end processes a grow packet. -/
theorem hear (h : l.Rises m) {ps : List Packet} (hin : headers (l.sent m) = p :: ps) (ht : p.type = .grow) :
    (l.endpoint m.other).lengths.Le ((l.endpoint m.other).lengths.grow l.writer.alpha p.queueSize p.maxThreshold) ∧
      ((l.endpoint m.other).lengths.grow l.writer.alpha p.queueSize p.maxThreshold).sum < 2 ^ 32 := by
  obtain ⟨-, h2, h3⟩ := h.told p (hin ▸ List.mem_cons_self) ht
  have hthreshold : max (l.endpoint m.other).maxThreshold p.maxThreshold ≤ (l.endpoint m).maxThreshold := by
    have hle := h.le
    rw [Link.settled, hin, Lengths.settle_cons, Lengths.hear, if_pos ht] at hle
    exact Lengths.le_settle.trans hle
  have hsum : ((l.endpoint m.other).lengths.grow l.writer.alpha p.queueSize p.maxThreshold).sum ≤
      p.queueSize + 2 * max (l.endpoint m.other).maxThreshold p.maxThreshold := Lengths.sum_grow_le (by omega)
  exact ⟨h3, by omega⟩

/-- The other end does not grow by itself: it may know a larger threshold, or have less to process. -/
private theorem follower_keeps (h : l.Rises m) (halpha : l'.writer.alpha = l.writer.alpha)
    (hother : l'.endpoint m = l.endpoint m) (hsent : l'.sent m.other = l.sent m.other ++ sent) (hnew : NoGrow sent)
    (hpend : (l'.endpoint m.other).pendingGrow = (l.endpoint m.other).pendingGrow)
    (hproper : (l'.endpoint m.other).lengths.Proper l.writer.alpha)
    (hwithin : (l.endpoint m).lengths.sum < 2 ^ 32 → (l'.endpoint m.other).lengths.Le
      ((l'.endpoint m.other).lengths.grow l.writer.alpha (l.endpoint m).lengths.sum (l.endpoint m).maxThreshold))
    (htold : ∀ p ∈ headers (l.sent m), p.type = .grow → p ∈ headers (l'.sent m) → (l'.endpoint m.other).lengths.Le
      ((l'.endpoint m.other).lengths.grow l.writer.alpha p.queueSize p.maxThreshold))
    (hsub : (headers (l'.sent m)).Sublist (headers (l.sent m))) (hset : (l.settled m).Le (l'.settled m))
    (hle : (l'.settled m).maxThreshold ≤ (l.endpoint m).maxThreshold) : l'.Rises m := by
  refine ⟨halpha ▸ h.steady, ⟨hpend.trans h.uncrossed.1, fun p hp => ?_⟩, ?_, ?_, ?_, ?_, h.ascending.sublist hsub,
    ?_, ?_⟩
  · rw [hsent, Framing.headers_append] at hp
    exact (List.mem_append.1 hp).elim (h.uncrossed.2 p) (hnew p)
  · rw [halpha]
    exact Mode.forall_of (m := m) (by rw [hother]; exact h.proper m) hproper
  · rw [hother]
    exact h.bound
  · rw [hother, halpha]
    exact hwithin
  · intro p hp ht
    obtain ⟨h1, h2, -⟩ := h.told p (hsub.subset hp) ht
    rw [hother, halpha]
    exact ⟨h1, h2, htold p (hsub.subset hp) ht hp⟩
  · rw [hother]
    exact fun hp => (h.settled hp).trans hset
  · rw [hother]
    exact hle

/-- The other end grows when nothing is on its way to it: it is the one that grows from now on. -/
private theorem follower_grows {len mt : Nat} (h : l.Rises m) (halpha : l'.writer.alpha = l.writer.alpha)
    (hother : l'.endpoint m = l.endpoint m) (hnosent : NoGrow (l'.sent m.other)) (hrest : l'.sent m = l.sent m)
    (hrise : l.Rising m.other len mt)
    (hlen : (l'.endpoint m.other).lengths = (l.endpoint m.other).lengths.grow l.writer.alpha len mt)
    (hpend : (l'.endpoint m.other).pendingGrow = true) : l'.Rises m.other ∧ l.Up l' := by
  obtain ⟨hlead, hquiet⟩ := hrise.uncrossed
  rw [Mode.other_other] at hlead hquiet
  obtain ⟨hle, hbound, hsum⟩ := hrise.le h.steady (h.proper m.other)
  rw [← hlen] at hle hbound hsum
  have hold : (l.endpoint m).lengths.Le (l.endpoint m.other).lengths := by
    have hset := h.settled hlead
    rwa [Link.settled, Lengths.settle_of_forall hquiet] at hset
  have hproper : (l'.endpoint m.other).lengths.Proper l.writer.alpha := hlen ▸ Lengths.proper_grow h.steady
  have hmt : (l.endpoint m).maxThreshold ≤ (l'.endpoint m.other).maxThreshold := (hold.trans hle).maxThreshold
  have hothers : l'.endpoint m.other.other = l.endpoint m.other.other := by rw [Mode.other_other, hother]
  refine ⟨⟨halpha ▸ h.steady, ⟨?_, ?_⟩, ?_, fun _ => hbound, fun hlt => ?_, fun p hp ht => absurd ht (hnosent p hp),
    ascending_of_forall hnosent, fun hp => absurd (hp.symm.trans hpend) (by decide), ?_⟩,
    .of_end ⟨hle, .inr (Nat.lt_of_le_of_lt (Nat.le_add_right _ _) hbound)⟩ hothers⟩
  · rw [hothers, Mode.other_other]
    exact hlead
  · rw [Mode.other_other, hrest]
    exact hquiet
  · rw [halpha]
    exact Mode.forall_of (m := m) (by rw [hother]; exact h.proper m) hproper
  · rw [hothers, Mode.other_other, halpha]
    refine (hold.trans (hle.trans (hproper hlt))).trans (Lengths.grow_mono (.refl _ _) ?_)
    exact max_le_iff.2 ⟨Nat.le_max_right _ _, Nat.le_max_right _ _⟩
  · rw [Link.settled, hothers, Mode.other_other, Lengths.settle_of_forall hnosent]
    exact hmt

/-- The other end takes a step; it may be the one that grows from now on. -/
private theorem follower (h : l.Rises m) (hf : l.Framed) (hlim : l.Limited)
    (hgrow : ∀ len mt, growth = some (len, mt) → l.Rising m.other len mt)
    (hs : LinkStep growth abandons l ⟨m.other, act⟩ l') : (l'.Rises m ∨ l'.Rises m.other) ∧ l.Up l' := by
  have halpha := hs.alpha_eq
  have hend := hf.alpha_eq m.other
  obtain ⟨v, rest, new, peerEnded, hv, rfl, hothers, hsent, rfl⟩ := hs.endpointStep
  have hother := hothers
  rw [Mode.other_other] at hother hv
  have hsettled : l'.settled m = (l'.endpoint m.other).lengths.settle l.writer.alpha (headers (l'.sent m)) := by
    rw [Link.settled, halpha]
  cases hv.growthStep with
  | still hlen hpend hrest hnew =>
    have hset : l'.settled m = l.settled m := by
      rw [hsettled, hlen, Link.settled]
      rcases hrest with hrest | ⟨p, hp, hrest⟩
      · rw [hrest]
      · rw [hrest, Lengths.settle_cons, Lengths.hear_of_ne hp]
    have hsub : (headers (l'.sent m)).Sublist (headers (l.sent m)) := by
      rcases hrest with hrest | ⟨p, -, hrest⟩
      · rw [hrest]
      · rw [hrest]
        exact List.sublist_cons_self _ _
    refine ⟨.inl (h.follower_keeps halpha hother hsent hnew hpend (hlen ▸ h.proper _) (hlen ▸ h.within)
      (fun p hp ht _ => ?_) hsub (hset ▸ .refl _) (hset ▸ h.le)), .of_end ⟨hlen ▸ .refl _, .inl (by rw [hlen])⟩ hothers⟩
    rw [hlen]
    exact (h.told p hp ht).2.2
  | grows hg hlen hpend hrest hnew =>
    rw [hend] at hlen
    have hnosent : NoGrow (l'.sent m.other) := by
      rw [hsent, hnew, List.append_nil]
      exact h.uncrossed.2
    -- from now on this end is the one that grows
    obtain ⟨hrises, hup⟩ := h.follower_grows halpha hother hnosent hrest (hgrow _ _ hg) hlen hpend
    exact ⟨.inr hrises, hup⟩
  | @hears p hin ht hlen hpend hnew =>
    have hset : l'.settled m = l.settled m := by
      rw [hsettled, hlen, Link.settled, hin, Lengths.settle_cons, hend]
    rw [hend, Lengths.hear, if_pos ht] at hlen
    have h1 := (h.told p (hin ▸ List.mem_cons_self) ht).1
    obtain ⟨h2, h3⟩ := h.hear hin ht
    have hsub : (headers (l'.sent m)).Sublist (headers (l.sent m)) := hin ▸ List.sublist_cons_self _ _
    have hfirst := h.ascending
    rw [hin] at hfirst
    refine ⟨.inl (h.follower_keeps halpha hother hsent (.of_headers (by rw [hnew]; rfl)) hpend
      (hlen ▸ Lengths.proper_grow h.steady) (fun hlt => ?_) (fun q hq hqt hleft => ?_) hsub (hset ▸ .refl _)
      (hset ▸ h.le)), .of_end ⟨hlen ▸ h2, .inr (hlen ▸ h3)⟩ hothers⟩
    · rw [hlen]
      exact Lengths.grow_mono (h.steady h1 hlt) (Nat.le_max_left _ _)
    · rw [hlen]
      have hlt := (h.told q hq hqt).2.1
      exact Lengths.grow_mono (h.steady ((List.pairwise_cons.1 hfirst).1 q hleft ht hqt) (by omega)) (Nat.le_max_left _ _)
  | tells hp => exact absurd (h.uncrossed.1.symm.trans hp) (by decide)
  | @raises p hm hin ht hlen hpend hnew =>
    -- only the reader learns of a larger threshold from a packet with bytes
    obtain rfl : m = .write := by cases m <;> simp [Mode.other] at hm ⊢
    have hcount : p.count ≤ l.writer.maxThreshold :=
      hlim p (by rw [show headers l.toReader = _ from hin]; exact List.mem_cons_self) ht
    have hskip := settled_of_ne hin (by rw [ht]; decide)
    have hset : (l.settled .write).Le (l'.settled .write) ∧
        (l'.settled .write).maxThreshold = max (l.settled .write).maxThreshold p.count := by
      rw [hsettled, hlen, hskip]
      refine ⟨⟨Lengths.part_settle_le_raise, ?_⟩, Lengths.maxThreshold_settle_raise⟩
      rw [Lengths.maxThreshold_settle_raise]
      exact Nat.le_max_left _ _
    have hsub : (headers (l'.sent .write)).Sublist (headers (l.sent .write)) := hin ▸ List.sublist_cons_self _ _
    refine ⟨.inl (h.follower_keeps halpha hother hsent (.of_headers (by rw [hnew]; rfl)) hpend
      (hlen ▸ (h.proper _).raise) (fun hlt => hlen ▸ Lengths.raise_le_grow (h.within hlt)) (fun q hq hqt _ => ?_) hsub
      hset.1 ?_), .of_end ⟨hlen ▸ Lengths.le_raise, .inl (by rw [hlen]; rfl)⟩ hothers⟩
    · rw [hlen]
      exact Lengths.raise_le_grow (h.told q hq hqt).2.2
    · rw [hset.2]
      exact Nat.max_le.2 ⟨h.le, hcount⟩

end Link.Rises

/-! ### Runs -/

instance (l : Link) (m : Mode) (queueLen maxThresh : Nat) : Decidable (l.Rising m queueLen maxThresh) :=
  decidable_of_iff (_ ∧ _ ∧ _) ⟨fun h => ⟨h.1, h.2.1, h.2.2⟩, fun h => ⟨h.1, h.2, h.3⟩⟩

/-- Every growth in this step meets the condition. -/
def RisesOnly (k : KernelBase) (s : PairState) (a : PairAct) : Prop :=
  ∀ r ∈ (s.side a.mode).growth k a.act, s.link.Rising a.mode r.1 r.2

instance (k : KernelBase) : DecidableRel (RisesOnly k) := fun s a =>
  inferInstanceAs (Decidable (∀ r ∈ (s.side a.mode).growth k a.act, _))

private theorem Lengths.proper_parts {len mt mt' : Nat} (ha : alpha.Steady) (h : mt ≤ mt') : Lengths.Proper alpha
    ⟨RemoteQueue.queueLength len mt alpha .read, RemoteQueue.queueLength len mt alpha .write, mt'⟩ := by
  refine fun hlt => ⟨fun m => ?_, Nat.le_max_left _ _⟩
  have hmono := RemoteQueue.queueLength_mono (ha (RemoteQueue.le_parts len mt alpha) hlt)
    (h.trans (Nat.le_max_left mt' mt')) m
  cases m with
  | read => exact hmono
  | write => exact hmono

private theorem Link.Rises.start (k : KernelBase) {attr : SimpleQueueAttr} (ha : attr.alpha.Steady) :
    (pairStart k attr).link.Rises .write := by
  have hproper : ∀ m, ((pairStart k attr).link.endpoint m).lengths.Proper attr.alpha := by
    intro m
    cases m with
    | read => exact Lengths.proper_parts ha (Nat.le_max_left attr.maxThreshold 1)
    | write => exact Lengths.proper_parts ha (Nat.le_max_left attr.maxThreshold 1)
  exact ⟨ha, ⟨rfl, nofun⟩, hproper, nofun, hproper .read, nofun, .nil, fun _ => .refl _, Nat.le_refl _⟩

private theorem Link.Rises.step {s : PairState} {a : PairAct} (h : ∃ m, s.link.Rises m) (hp : PairSound k s)
    (hlim : s.link.Limited) (hok : RisesOnly k s a)
    (hs : LinkStep ((s.side a.mode).growth k a.act) abandons s.link a l') : (∃ m, l'.Rises m) ∧ s.link.Up l' := by
  obtain ⟨m', h⟩ := h
  obtain ⟨m, act⟩ := a
  by_cases hm : m = m'
  · subst hm
    obtain ⟨h1, h2⟩ := h.leader hp.framed hlim (fun len mt hg => hok (len, mt) hg) hs
    exact ⟨⟨m, h1⟩, h2⟩
  · obtain rfl : m = m'.other := by cases m <;> cases m' <;> simp_all [Mode.other]
    obtain ⟨h1, h2⟩ := h.follower hp.framed hlim (fun len mt hg => hok (len, mt) hg) hs
    exact ⟨h1.elim (⟨_, ·⟩) (⟨_, ·⟩), h2⟩

private theorem rises_of_reachableBy {arithmetic : Arithmetic} {s : PairState}
    (h : (remotePair k arithmetic).ReachableBy (RisesOnly k) s) (ha : s.link.writer.alpha.Steady) :
    s.link.Limited ∧ ∃ m, s.link.Rises m := by
  refine link_invariant (I := fun l => l.writer.alpha.Steady → l.Limited ∧ ∃ m, l.Rises m) ?_ ?_ h ha
  · exact fun attr _ _ ha => ⟨nofun, .write, .start k ha⟩
  · intro s a l' hp hI hok hs ha
    obtain ⟨hlim, hr⟩ := hI (hs.alpha_eq ▸ ha)
    exact ⟨hlim.step hp.framed.writer hs, (Link.Rises.step hr hp hlim hok hs).1⟩

/-- Nothing is lower in `q'` than in `q`. -/
structure RemoteQueue.NotBelow (q q' : RemoteQueue) : Prop where
  readerlength : q.readerlength ≤ q'.readerlength
  writerlength : q.writerlength ≤ q'.writerlength
  queueLength : q.unlockedQueueLength ≤ q'.unlockedQueueLength
  maxThreshold : q.queue.maxThreshold ≤ q'.queue.maxThreshold

private theorem u32_le (n : Nat) : u32 n ≤ n := Nat.mod_le _ _

private theorem Link.Up.u32_sum (h : l.Up l') (m : Mode) :
    u32 (l.endpoint m).lengths.sum ≤ u32 (l'.endpoint m).lengths.sum := by
  obtain ⟨hle, hsum | hsum⟩ := h m
  · rw [hsum]
  · rw [u32_of_lt hsum]
    exact (u32_le _).trans hle.sum

/-- The end `m` has at least these lengths, and the other one has them, or will have them. -/
structure Link.Spreads (l : Link) (m : Mode) (queueLen maxThresh : Nat) : Prop where
  here : queueLen ≤ u32 (l.endpoint m).lengths.sum ∧ maxThresh ≤ (l.endpoint m).maxThreshold
  there : (l.endpoint m).pendingGrow = true ∨
    (∃ p ∈ headers (l.sent m), p.type = .grow ∧ queueLen ≤ p.queueSize ∧ maxThresh ≤ p.maxThreshold) ∨
    queueLen ≤ u32 (l.endpoint m.other).lengths.sum ∧ maxThresh ≤ (l.endpoint m.other).maxThreshold

private theorem Link.Spreads.step {len mt : Nat} {m' : Mode} (h : l.Spreads m len mt) (hf : l.Framed) (hr : ∃ m, l.Rises m)
    (hup : l.Up l') (hs : LinkStep growth abandons l ⟨m', act⟩ l') : l'.Spreads m len mt := by
  have hhere : len ≤ u32 (l'.endpoint m).lengths.sum ∧ mt ≤ (l'.endpoint m).maxThreshold :=
    ⟨h.here.1.trans (hup.u32_sum m), h.here.2.trans (hup m).1.maxThreshold⟩
  have hthere : len ≤ u32 (l.endpoint m.other).lengths.sum ∧ mt ≤ (l.endpoint m.other).maxThreshold →
      len ≤ u32 (l'.endpoint m.other).lengths.sum ∧ mt ≤ (l'.endpoint m.other).maxThreshold := fun ⟨h1, h2⟩ =>
    ⟨h1.trans (hup.u32_sum _), h2.trans (hup m.other).1.maxThreshold⟩
  refine ⟨hhere, ?_⟩
  by_cases hm : m' = m
  · -- the end itself: what it has told stays on the way, and what it has yet to tell it tells now or later
    subst hm
    obtain ⟨v, rest, new, peerEnded, hv, rfl, hother, hsent, rfl⟩ := hs.endpointStep
    have hkeep : ((∃ p ∈ headers (l.sent m'), p.type = .grow ∧ len ≤ p.queueSize ∧ mt ≤ p.maxThreshold) ∨
        len ≤ u32 (l.endpoint m'.other).lengths.sum ∧ mt ≤ (l.endpoint m'.other).maxThreshold) →
        (l'.endpoint m').pendingGrow = true ∨
        (∃ p ∈ headers (l'.sent m'), p.type = .grow ∧ len ≤ p.queueSize ∧ mt ≤ p.maxThreshold) ∨
        len ≤ u32 (l'.endpoint m'.other).lengths.sum ∧ mt ≤ (l'.endpoint m'.other).maxThreshold := by
      rintro (⟨p, hp, hp'⟩ | hy)
      · refine .inr (.inl ⟨p, ?_, hp'⟩)
        rw [hsent, Framing.headers_append]
        exact List.mem_append_left _ hp
      · exact .inr (.inr (hthere hy))
    rcases h.there with hpend | hrest
    · cases hv.growthStep with
      | still _ hp => exact .inl (hp.trans hpend)
      | grows _ _ hp => exact .inl hp
      | hears _ _ _ hp => exact .inl (hp.trans hpend)
      | @tells p ps _ _ _ _ hnew ht hq hmt =>
        refine .inr (.inl ⟨p, ?_, ht, hq ▸ h.here.1, hmt ▸ h.here.2⟩)
        rw [hsent, Framing.headers_append, hnew]
        exact List.mem_append_right _ List.mem_cons_self
      | raises _ _ _ _ hp => exact .inl (hp.trans hpend)
    · exact hkeep hrest
  · -- the other end: it may process what it has been told
    obtain rfl : m' = m.other := by cases m <;> cases m' <;> simp_all [Mode.other]
    obtain ⟨v, rest, new, peerEnded, hv, rfl, hother, hsent, rfl⟩ := hs.endpointStep
    rw [Mode.other_other] at hother hv
    rcases h.there with hpend | ⟨p, hp, ht, h1, h2⟩ | hy
    · exact .inl (hother ▸ hpend)
    · cases hv.growthStep with
      | still _ _ hrest =>
        refine .inr (.inl ⟨p, ?_, ht, h1, h2⟩)
        rcases hrest with hrest | ⟨q, hq, hrest⟩
        · exact hrest ▸ hp
        · rw [hrest] at hp
          exact (List.mem_cons.1 hp).resolve_left fun heq => hq (heq ▸ ht)
      | grows _ _ _ hrest => exact .inr (.inl ⟨p, hrest ▸ hp, ht, h1, h2⟩)
      | @hears q hin hqt hlen =>
        rw [hin] at hp
        rcases List.mem_cons.1 hp with rfl | hp
        · refine .inr (.inr ?_)
          -- nothing else than what the end has told is on the way
          obtain ⟨n, hn⟩ := hr
          have hnm : n = m := by
            by_contra hne
            obtain rfl : n = m.other := by cases n <;> cases m <;> simp_all [Mode.other]
            have hquiet := hn.uncrossed.2
            rw [Mode.other_other] at hquiet
            exact hquiet p (hin ▸ List.mem_cons_self) ht
          subst hnm
          have hlt := (hn.hear hin ht).2
          rw [hf.alpha_eq, Lengths.hear, if_pos ht] at hlen
          have hmt : p.maxThreshold ≤ (l'.endpoint n.other).lengths.maxThreshold := hlen ▸ Nat.le_max_right _ _
          rw [hlen, u32_of_lt hlt]
          exact ⟨h1.trans Lengths.le_sum_grow, h2.trans hmt⟩
        · exact .inr (.inl ⟨p, hp, ht, h1, h2⟩)
      | tells _ _ _ hrest => exact .inr (.inl ⟨p, hrest ▸ hp, ht, h1, h2⟩)
      | @raises q _ hin hqt =>
        rw [hin] at hp
        refine .inr (.inl ⟨p, (List.mem_cons.1 hp).resolve_left fun heq => ?_, ht, h1, h2⟩)
        rw [heq, hqt] at ht
        cases ht
    · exact .inr (.inr (hthere hy))

section Runs

variable {s t : PairState} {q q' : RemoteQueue} {len mt : Nat} {arithmetic : Arithmetic}

private theorem PairState.endpoint_link (s : PairState) (m : Mode) : s.link.endpoint m = (s.side m).endpoint := by
  cases m <;> rfl

private theorem Link.Up.notBelow (h : s.link.Up t.link) (m : Mode) : (s.side m).q.NotBelow (t.side m).q := by
  have hle := (h m).1
  have hsum := h.u32_sum m
  rw [PairState.endpoint_link, PairState.endpoint_link] at hle hsum
  exact ⟨hle.part .read, hle.part .write, hsum, hle.maxThreshold⟩

private theorem RemoteQueue.NotBelow.trans {q'' : RemoteQueue} (h : q.NotBelow q') (h' : q'.NotBelow q'') : q.NotBelow q'' :=
  ⟨h.1.trans h'.1, h.2.trans h'.2, h.3.trans h'.3, h.4.trans h'.4⟩

/-- A step of a run meets the condition and lowers nothing. -/
private theorem step_of_next {a : PairAct} (hs : (remotePair k arithmetic).ReachableBy (RisesOnly k) s)
    (ha : s.link.writer.alpha.Steady) (hok : RisesOnly k s a) (hn : pairNext k s a = some t) : s.link.Up t.link ∧
      LinkStep ((s.side a.mode).growth k a.act) ((s.side a.mode).abandons a.act) s.link a t.link := by
  have hp := pairSound_of_reachableBy hs
  obtain ⟨hlim, hr⟩ := rises_of_reachableBy hs ha
  have hstep := (hp.next hn).2
  exact ⟨(Link.Rises.step hr hp hlim hok hstep).2, hstep⟩

/-- `alpha` does not change. -/
private theorem steady_of_leadsBy (hs : (remotePair k arithmetic).ReachableBy (RisesOnly k) s)
    (ha : s.link.writer.alpha.Steady) (h : (remotePair k arithmetic).LeadsBy (RisesOnly k) s t) :
    t.link.writer.alpha.Steady := by
  induction h with
  | refl => exact ha
  | step ht _ hn ih =>
    have hstep := ((pairSound_of_reachableBy (hs.trans ht)).next hn).2
    rw [hstep.alpha_eq]
    exact ih

private theorem notBelow_of_leadsBy (hs : (remotePair k arithmetic).ReachableBy (RisesOnly k) s)
    (ha : s.link.writer.alpha.Steady) (h : (remotePair k arithmetic).LeadsBy (RisesOnly k) s t) (m : Mode) :
    (s.side m).q.NotBelow (t.side m).q := by
  induction h with
  | refl => exact ⟨Nat.le_refl _, Nat.le_refl _, Nat.le_refl _, Nat.le_refl _⟩
  | step ht hok hn ih =>
    exact ih.trans ((step_of_next (hs.trans ht) (steady_of_leadsBy hs ha ht) hok hn).1.notBelow m)

private theorem spreads_of_leadsBy (hs : (remotePair k arithmetic).ReachableBy (RisesOnly k) s)
    (ha : s.link.writer.alpha.Steady) (h : (remotePair k arithmetic).LeadsBy (RisesOnly k) s t)
    (hm : s.link.Spreads m len mt) : t.link.Spreads m len mt := by
  induction h with
  | refl => exact hm
  | @step t u a ht hok hn ih =>
    have ha := steady_of_leadsBy hs ha ht
    have ht := hs.trans ht
    obtain ⟨hup, hstep⟩ := step_of_next ht ha hok hn
    obtain ⟨m', act⟩ := a
    exact ih.step (pairSound_of_reachableBy ht).framed (rises_of_reachableBy ht ha).2 hup hstep

/-- The lengths after a growth that does not fail. -/
theorem lengths_finishGrow {malloc : Malloc} (h : q.finishGrow malloc len mt = .ok q') :
    q'.readerlength = RemoteQueue.queueLength len (max q.queue.maxThreshold mt) q.alpha .read ∧
      q'.writerlength = RemoteQueue.queueLength len (max q.queue.maxThreshold mt) q.alpha .write ∧
      q'.queue.maxThreshold = max q.queue.maxThreshold mt ∧ q'.pendingGrow = true := by
  obtain ⟨r, hr, h⟩ := bind_eq_ok h
  obtain ⟨base, hbase, hr⟩ := bind_eq_ok hr
  cases hr
  cases h
  refine ⟨rfl, rfl, ?_, rfl⟩
  show base.queue.maxThreshold = _
  rw [(ThresholdQueue.lengths_unlockedGrow hbase).2]
  omega

/-- A growth that meets the condition does what is asked for. -/
theorem grown_of_finishGrow (hs : (remotePair k arithmetic).ReachableBy (RisesOnly k) s)
    (ha : s.link.writer.alpha.Steady) (hr : s.link.Rising m len mt) (h : (s.side m).q.finishGrow k.malloc len mt = .ok q') :
    (s.side m).q.NotBelow q' ∧ len ≤ q'.unlockedQueueLength ∧ mt ≤ q'.queue.maxThreshold := by
  obtain ⟨-, m', hrises⟩ := rises_of_reachableBy hs ha
  obtain ⟨h1, h2, h3, -⟩ := lengths_finishGrow h
  have halpha : s.link.writer.alpha = (s.side m).q.alpha :=
    ((pairSound_of_reachableBy hs).framed.alpha_eq m).symm.trans (congrArg (fun v : Endpoint => v.alpha) (s.endpoint_link m))
  obtain ⟨hle, hbound, hsum⟩ := hr.le ha (hrises.proper m)
  rw [halpha, PairState.endpoint_link] at hle hbound hsum
  have hgrown : (s.side m).endpoint.lengths.grow (s.side m).q.alpha len mt =
      ⟨q'.readerlength, q'.writerlength, q'.queue.maxThreshold⟩ := by
    rw [h1, h2, h3]
    rfl
  have hlen : len ≤ ((s.side m).endpoint.lengths.grow (s.side m).q.alpha len mt).sum := Lengths.le_sum_grow
  rw [hgrown] at hle hbound hsum hlen
  change len ≤ q'.readerlength + q'.writerlength at hlen
  change (s.side m).q.readerlength + (s.side m).q.writerlength ≤ q'.readerlength + q'.writerlength at hsum
  change q'.readerlength + q'.writerlength + 2 * q'.queue.maxThreshold < 2 ^ 32 at hbound
  have hsum' : q'.unlockedQueueLength = q'.readerlength + q'.writerlength := u32_of_lt (by omega)
  refine ⟨⟨hle.part .read, hle.part .write, ?_, hle.maxThreshold⟩, hsum' ▸ hlen, h3 ▸ Nat.le_max_right _ _⟩
  rw [hsum']
  exact (u32_le _).trans hsum

/-- What it means that growing never shrinks, on both sides of a remote queue. -/
structure GrowsOnly (k : KernelBase) (arithmetic : Arithmetic) (s : PairState) : Prop where
  /-- a call that returns has done what was asked for -/
  returns : ∀ m len mt q', (s.side m).q.unlockedGrow k len mt = .ok (.done q') →
    (((s.side m).q.growth len mt).isSome = true → s.link.Rising m len mt) →
    (s.side m).q.NotBelow q' ∧ len ≤ q'.unlockedQueueLength ∧ mt ≤ q'.queue.maxThreshold
  /-- and so has a call that had to wait -/
  finishes : ∀ m len mt q', (s.side m).q.finishGrow k.malloc len mt = .ok q' → s.link.Rising m len mt →
    (s.side m).q.NotBelow q' ∧ len ≤ q'.unlockedQueueLength ∧ mt ≤ q'.queue.maxThreshold
  later : ∀ t, (remotePair k arithmetic).LeadsBy (RisesOnly k) s t → ∀ m, (s.side m).q.NotBelow (t.side m).q
  /-- when the other end has processed the grow packet, it has at least as much -/
  told : ∀ t, (remotePair k arithmetic).LeadsBy (RisesOnly k) s t → ∀ m, (s.side m).q.pendingGrow = true →
    (t.side m).q.pendingGrow = false → NoGrow (t.wire m) →
    (s.side m).q.unlockedQueueLength ≤ (t.side m.other).q.unlockedQueueLength ∧
      (s.side m).q.queue.maxThreshold ≤ (t.side m.other).q.queue.maxThreshold

end Runs

end ProcessNetwork
