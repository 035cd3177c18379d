import ProcessNetwork.RingContents

/-!
# Moving a ring buffer to a larger buffer

`drainInto` appends everything the source holds to what the destination holds, provided that the destination has room
and at least the threshold of the source (`Holds.drainInto`): every pass moves a front of the source, and none of the
assertions on the two pointers fails.  `TQImpl::Grow` is one such move into a fresh buffer, so it keeps the contents
and never shrinks the queue (`Holds.grow`).
-/

namespace ProcessNetwork

namespace ThresholdQueueBase

variable {src dst q : ThresholdQueueBase} {f g : Nat → List Byte}

/-- `q'` is `q` with other cells and indices: same buffer, lengths and channels. -/
structure SameShape (q q' : ThresholdQueueBase) : Prop where
  queueLength : q'.queueLength = q.queueLength
  maxThreshold : q'.maxThreshold = q.maxThreshold
  numChannels : q'.numChannels = q.numChannels
  buf : q'.buf = q.buf

theorem SameShape.refl (q : ThresholdQueueBase) : SameShape q q := ⟨rfl, rfl, rfl, rfl⟩

theorem SameShape.trans {q q' q'' : ThresholdQueueBase} (h : SameShape q q') (h' : SameShape q' q'') :
    SameShape q q'' :=
  ⟨h'.1.trans h.1, h'.2.trans h.2, h'.3.trans h.3, h'.4.trans h.4⟩

theorem SameShape.channelStride_eq {q q' : ThresholdQueueBase} (h : SameShape q q') :
    q'.channelStride = q.channelStride := by
  rw [channelStride, channelStride, h.queueLength, h.maxThreshold]

theorem sameShape_enqueue (q : ThresholdQueueBase) (n : Nat) : SameShape q (q.enqueue n) := ⟨rfl, rfl, rfl, rfl⟩

theorem sameShape_dequeue (q : ThresholdQueueBase) (n : Nat) : SameShape q (q.dequeue n) := ⟨rfl, rfl, rfl, rfl⟩

/-- The cells after copying the first `k` channels: the enqueue regions of these channels have the elements of `src`,
everything else is as before. -/
private theorem copyChannels_eq {n : Nat} (hsrc : n ≤ src.count) (hsm : n ≤ src.maxThreshold) (hdst : n ≤ dst.freespace)
    (hdm : n ≤ dst.maxThreshold) (k : Nat) :
    ∃ base, copyChannels src dst n k = .ok { dst with base := base } ∧
      (∀ c < k, ∀ j < n, base (c * dst.channelStride + (dst.tail % dst.queueLength + j)) =
        src.base (c * src.channelStride + src.head % src.queueLength + j)) ∧
      ∀ c, ∀ x < dst.channelStride, base (c * dst.channelStride + x) ≠ dst.base (c * dst.channelStride + x) →
        c < k ∧ ∃ j < n, x = dst.tail % dst.queueLength + j := by
  induction k with
  | zero => exact ⟨dst.base, rfl, by omega, fun c x _ h => absurd rfl h⟩
  | succ k ih =>
    obtain ⟨base, hok, hcopied, hother⟩ := ih
    have hs : src.getRawDequeuePtr n k = some (k * src.channelStride + src.head % src.queueLength) :=
      if_neg (by omega)
    have hd : ({ dst with base := base } : ThresholdQueueBase).getRawEnqueuePtr n k =
        some (k * dst.channelStride + dst.tail % dst.queueLength) :=
      if_neg (not_or.2 ⟨Nat.not_lt.2 hdst, Nat.not_lt.2 hdm⟩)
    refine ⟨memcpy base (k * dst.channelStride + dst.tail % dst.queueLength) src.base
      (k * src.channelStride + src.head % src.queueLength) n, ?_, ?_, ?_⟩
    · rw [copyChannels, hok]
      dsimp only [bind, Except.bind]
      rw [hs, hd]
    · intro c hc j hj
      by_cases hck : c = k
      · subst hck
        rw [← Nat.add_assoc, memcpy_inside hj]
      · have hlt := dst.add_lt_channelStride dst.tail hdm hj
        have hk := dst.add_lt_channelStride dst.tail (i := n - 1) hdm (by omega)
        have := stride_disjoint hlt hck
        rw [Nat.add_mul] at this
        rw [memcpy_outside (by omega), hcopied c (by omega) j hj]
    · intro c x hx hne
      by_cases hin : k * dst.channelStride + dst.tail % dst.queueLength ≤ c * dst.channelStride + x ∧
          c * dst.channelStride + x < k * dst.channelStride + dst.tail % dst.queueLength + n
      · have hck : c = k := by
          by_contra hck
          have hk := dst.add_lt_channelStride dst.tail (i := n - 1) hdm (by omega)
          have := stride_disjoint hx hck
          rw [Nat.add_mul] at this
          omega
        subst hck
        exact ⟨by omega, x - dst.tail % dst.queueLength, by omega, by omega⟩
      · rw [memcpy_outside (by omega)] at hne
        obtain ⟨hc, hj⟩ := hother c x hx hne
        exact ⟨by omega, hj⟩

/-- One pass of the copying loop moves the front of the source to the end of the destination. -/
private theorem Holds.copyChannels (hs : src.Holds g) (hd : dst.Holds f) (hchan : src.numChannels = dst.numChannels)
    {n : Nat} (hsrc : n ≤ src.count) (hsm : n ≤ src.maxThreshold) (hdst : n ≤ dst.freespace)
    (hdm : n ≤ dst.maxThreshold) :
    ∃ dst', ThresholdQueueBase.copyChannels src dst n dst.numChannels = .ok dst' ∧ SameShape dst dst' ∧
      (dst'.enqueue n).Holds (fun c => f c ++ (g c).take n) ∧ (dst'.enqueue n).count = dst.count + n ∧
      dst'.head = dst.head ∧ dst'.elementsEnqueued = dst.elementsEnqueued ∧ dst'.elementsDequeued =
        dst.elementsDequeued := by
  obtain ⟨base, hok, hcopied, hother⟩ := copyChannels_eq hsrc hsm hdst hdm dst.numChannels
  have hw : ({ dst with base := base } : ThresholdQueueBase).Holds f :=
    hd.write hdst fun c _ x hx hne => (hother c x hx hne).2
  refine ⟨{ dst with base := base }, hok, ⟨rfl, rfl, rfl, rfl⟩, ?_, count_of_spans (hw.spans_enqueue hdst), rfl,
    rfl, rfl⟩
  refine (hw.enqueue (n := n) hdst hdm).congr ?_
  intro c hc
  have hregion : ({ dst with base := base } : ThresholdQueueBase).enqueueRegion c n = src.dequeueRegion c n := by
    refine slice_congr fun j hj => ?_
    rw [Nat.add_assoc]
    exact hcopied c hc j hj
  rw [hregion, hs.dequeueRegion_eq (hchan ▸ hc) hsrc hsm]

/-- `drainInto` appends what the source holds to what the destination holds. -/
theorem Holds.drainInto {passes : Nat} (hs : src.Holds g) (hd : dst.Holds f)
    (hchan : src.numChannels = dst.numChannels) (hroom : src.count ≤ dst.freespace)
    (hmax : src.maxThreshold ≤ dst.maxThreshold) (hp : src.count ≤ passes) :
    ∃ src' dst', ThresholdQueueBase.drainInto passes src dst = .ok (src', dst') ∧ SameShape dst dst' ∧
      dst'.Holds (fun c => f c ++ g c) ∧ dst'.count = dst.count + src.count ∧
      dst'.head = dst.head ∧ dst'.elementsEnqueued = dst.elementsEnqueued + src.count ∧
      dst'.elementsDequeued = dst.elementsDequeued ∧ src'.elementsEnqueued = src.elementsEnqueued := by
  induction passes generalizing src dst f g with
  | zero =>
    refine ⟨src, dst, by simp [ThresholdQueueBase.drainInto]; omega, .refl dst, hd.congr ?_, by omega, rfl, by omega,
      rfl, rfl⟩
    intro c hc
    have := hs.length_eq c (hchan ▸ hc)
    simp [List.eq_nil_of_length_eq_zero (show (g c).length = 0 by omega)]
  | succ passes ih =>
    by_cases h0 : src.count = 0
    · refine ⟨src, dst, by simp [ThresholdQueueBase.drainInto, h0], .refl dst, hd.congr ?_, by omega, rfl, by omega,
        rfl, rfl⟩
      intro c hc
      have := hs.length_eq c (hchan ▸ hc)
      simp [List.eq_nil_of_length_eq_zero (show (g c).length = 0 by omega)]
    · obtain ⟨n, hn⟩ : ∃ n, n = if src.count > src.maxThreshold then src.maxThreshold else src.count := ⟨_, rfl⟩
      have hpos := src.one_le_maxThreshold
      have hnc : n ≤ src.count ∧ n ≤ src.maxThreshold ∧ 0 < n := by split at hn <;> omega
      obtain ⟨dst', hok, hshape, hd', hcount, hhead, hee, hed⟩ :=
        Holds.copyChannels hs hd hchan (n := n) (by omega) (by omega) (by omega) (by omega)
      have hs' := hs.dequeue hnc.1
      have hsc : (src.dequeue n).count = src.count - n := count_of_spans (hs.count_dequeue hnc.1)
      have hroom' : (src.dequeue n).count ≤ (dst'.enqueue n).freespace := by
        show _ ≤ dst'.queueLength - (dst'.enqueue n).count
        unfold freespace at hroom
        rw [hsc, hcount, hshape.queueLength]
        omega
      obtain ⟨src'', dst'', hok', hshape', hd'', hcount', hhead', hee', hed', hse⟩ := ih hs' hd'
        (hchan.trans hshape.numChannels.symm) hroom'
        (by show src.maxThreshold ≤ dst'.maxThreshold; rw [hshape.maxThreshold]; exact hmax) (by omega)
      refine ⟨src'', dst'', ?_, (hshape.trans (sameShape_enqueue dst' n)).trans hshape', hd''.congr ?_, by omega,
        hhead'.trans hhead, ?_, hed'.trans hed, hse⟩
      · simp only [ThresholdQueueBase.drainInto, if_neg h0, ← hn, hok]
        exact hok'
      · intro c _
        rw [List.append_assoc, List.take_append_drop]
      · have : (dst'.enqueue n).elementsEnqueued = dst'.elementsEnqueued + n := rfl
        omega

/-- The queue after a successful `Grow`: the lengths are raised to what was asked for and never lowered. -/
structure Grown (q : ThresholdQueueBase) (queueLen maxThresh : Nat) (q' : ThresholdQueueBase) : Prop where
  queueLength : q'.queueLength = max q.queueLength (max queueLen maxThresh)
  maxThreshold : q'.maxThreshold = max q.maxThreshold maxThresh
  numChannels : q'.numChannels = q.numChannels
  count : q'.count = q.count
  elementsEnqueued : q'.elementsEnqueued = q.elementsEnqueued
  elementsDequeued : q'.elementsDequeued = q.elementsDequeued

theorem Grown.freespace_le {queueLen maxThresh : Nat} {q' : ThresholdQueueBase} (h : Grown q queueLen maxThresh q') :
    q.freespace ≤ q'.freespace := by
  unfold freespace
  rw [h.queueLength, h.count]
  omega

theorem Grown.of_le {queueLen maxThresh : Nat} (h : queueLen ≤ q.queueLength ∧ maxThresh ≤ q.maxThreshold) :
    Grown q queueLen maxThresh q := by
  have := q.maxThreshold_le
  exact ⟨by omega, by omega, rfl, rfl, rfl, rfl⟩

/-- The element counters play no part in what a queue holds. -/
theorem Holds.withCounters (h : q.Holds f) (e d : Nat) :
    ({ q with elementsEnqueued := e, elementsDequeued := d } : ThresholdQueueBase).Holds f :=
  ⟨h.spans, h.length_eq, h.cell⟩

theorem holds_allocateBuf (malloc : Malloc) (queueLen maxThresh numChans buf : Nat) :
    (allocateBuf malloc queueLen maxThresh numChans buf).Holds fun _ => [] := by
  have hs : (allocateBuf malloc queueLen maxThresh numChans buf).Spans 0 := by simp [Spans, allocateBuf]
  have hcount := count_of_spans hs
  exact ⟨hcount.symm ▸ hs, fun _ _ => by simp [hcount], fun _ _ _ _ i hi => by omega⟩

/-- `TQImpl::Grow` keeps what the queue holds, on a new buffer; the duplicate it returns is the old queue. -/
theorem Holds.grow (malloc : Malloc) {queueLen maxThresh : Nat} (copy : Bool) (h : q.Holds f)
    (hgrow : ¬(queueLen ≤ q.queueLength ∧ maxThresh ≤ q.maxThreshold)) :
    ∃ q' n, q.grow malloc queueLen maxThresh copy =
        .ok (q', if copy then some { q with elementsDequeued := n } else none) ∧
      q'.Holds f ∧ Grown q queueLen maxThresh q' ∧ q'.buf = q.buf + 1 := by
  have hL := h.count_le
  have hM := q.one_le_maxThreshold
  have hML := q.maxThreshold_le
  obtain ⟨mt, hmt⟩ : ∃ mt, mt = if maxThresh ≤ q.maxThreshold then q.maxThreshold else maxThresh := ⟨_, rfl⟩
  obtain ⟨len, hlen⟩ : ∃ len, len = if queueLen ≤ q.queueLength then q.queueLength else queueLen := ⟨_, rfl⟩
  have hmt' : mt = max q.maxThreshold maxThresh := by split at hmt <;> omega
  have hlen' : len = max q.queueLength queueLen := by split at hlen <;> omega
  let fresh : ThresholdQueueBase :=
    { allocateBuf malloc len mt q.numChannels (q.buf + 1) with elementsDequeued := q.elementsDequeued }
  have hfresh : fresh.Holds fun _ => [] := (holds_allocateBuf malloc len mt q.numChannels (q.buf + 1)).withCounters _ _
  have hcount : fresh.count = 0 := count_of_spans (n := 0) (by simp [Spans, fresh, allocateBuf])
  have hfl : fresh.queueLength = max q.queueLength (max queueLen maxThresh) := by
    show max len (max mt 1) = _
    omega
  have hfm : fresh.maxThreshold = max q.maxThreshold maxThresh := by
    show max mt 1 = _
    omega
  obtain ⟨old, new, hok, hshape, hnew, hcount', -, hee, hed, hse⟩ := h.drainInto hfresh rfl
    (by unfold freespace; omega) (by omega) (Nat.le_refl _)
  refine ⟨{ new with elementsEnqueued := old.elementsEnqueued }, old.elementsDequeued, ?_, ?_, ?_, hshape.buf⟩
  · rw [ThresholdQueueBase.grow, if_neg hgrow, ← hmt, ← hlen]
    show (ThresholdQueueBase.drainInto q.count q fresh >>= _) = _
    rw [hok]
    rfl
  · exact (hnew.congr fun c _ => List.nil_append _).withCounters _ _
  · exact ⟨hshape.queueLength.trans hfl, hshape.maxThreshold.trans hfm, hshape.numChannels,
      hcount'.trans (by omega), hse, hed⟩

end ThresholdQueueBase

end ProcessNetwork
