import ProcessNetwork.RemoteFlow

/-!
# The growth handshake

An end that grows recomputes the parts of both sides from the length that is asked for, and tells the other end the sum
of the parts, which the other end splits again.  `GrowthStep` says what a step can do to the lengths of an end.

The two ends agree in the end when their growths do not cross and the sum splits into the same parts
(`Link.Leads`).
-/

namespace ProcessNetwork

open Framing (headers)

/-- The lengths about which the two ends have to agree. -/
structure Lengths where
  readerlength : Nat
  writerlength : Nat
  maxThreshold : Nat
  deriving DecidableEq

namespace Lengths

variable {alpha : Alpha} {s s' : Lengths} {c len mt : Nat} {p : Packet} {ps ps' : List Packet}

def sum (s : Lengths) : Nat := s.readerlength + s.writerlength

/-- The lengths after a growth. -/
def grow (alpha : Alpha) (s : Lengths) (queueLen maxThresh : Nat) : Lengths :=
  let maxthresh := max s.maxThreshold maxThresh
  ⟨RemoteQueue.queueLength queueLen maxthresh alpha .read, RemoteQueue.queueLength queueLen maxthresh alpha .write,
    maxthresh⟩

/-- The lengths after a packet has been processed. -/
def hear (alpha : Alpha) (s : Lengths) (p : Packet) : Lengths :=
  if p.type = .grow then s.grow alpha p.queueSize p.maxThreshold else s

/-- The lengths after all packets on the way have been processed. -/
def settle (alpha : Alpha) (s : Lengths) (ps : List Packet) : Lengths := ps.foldl (hear alpha) s

/-- A larger threshold. -/
def raise (s : Lengths) (c : Nat) : Lengths := { s with maxThreshold := max s.maxThreshold c }

/-- Splitting the sum of the parts gives the same parts. -/
def Stable (alpha : Alpha) (s : Lengths) : Prop := s.grow alpha (u32 s.sum) s.maxThreshold = s

private theorem grow_congr {len mt : Nat} (h : max s.maxThreshold mt = max s'.maxThreshold mt) :
    s.grow alpha len mt = s'.grow alpha len mt := by
  unfold grow
  rw [h]

theorem hear_of_ne (h : p.type ≠ .grow) : s.hear alpha p = s := if_neg h

theorem settle_append : s.settle alpha (ps ++ ps') = (s.settle alpha ps).settle alpha ps' := List.foldl_append

theorem settle_of_forall (h : ∀ p ∈ ps, p.type ≠ .grow) : s.settle alpha ps = s := by
  induction ps with
  | nil => rfl
  | cons p ps ih =>
    rw [settle, List.foldl_cons, hear_of_ne (h p List.mem_cons_self)]
    exact ih fun p hp => h p (List.mem_cons_of_mem _ hp)

private theorem le_hear : s.maxThreshold ≤ (s.hear alpha p).maxThreshold := by
  unfold hear
  split
  · exact Nat.le_max_left _ _
  · exact Nat.le_refl _

theorem le_settle : s.maxThreshold ≤ (s.settle alpha ps).maxThreshold := by
  induction ps generalizing s with
  | nil => exact Nat.le_refl _
  | cons p ps ih => exact le_hear.trans ih

theorem maxThreshold_settle_raise :
    ((s.raise c).settle alpha ps).maxThreshold = max (s.settle alpha ps).maxThreshold c := by
  induction ps using List.reverseRecOn with
  | nil => rfl
  | append_singleton ps p ih =>
    rw [settle_append, settle_append]
    show (Lengths.hear alpha ((s.raise c).settle alpha ps) p).maxThreshold =
      max (Lengths.hear alpha (s.settle alpha ps) p).maxThreshold c
    unfold hear
    split
    · show max ((s.raise c).settle alpha ps).maxThreshold p.maxThreshold =
        max (max (s.settle alpha ps).maxThreshold p.maxThreshold) c
      rw [ih, max_right_comm]
    · exact ih

/-- Raising the threshold makes no difference in the end if the end is above it. -/
theorem settle_raise (h : c ≤ (s.settle alpha ps).maxThreshold) : (s.raise c).settle alpha ps = s.settle alpha ps := by
  induction ps using List.reverseRecOn with
  | nil => exact congrArg (Lengths.mk _ _) (Nat.max_eq_left h)
  | append_singleton ps p ih =>
    rw [settle_append, settle_append] at *
    change c ≤ (Lengths.hear alpha (s.settle alpha ps) p).maxThreshold at h
    show Lengths.hear alpha ((s.raise c).settle alpha ps) p = Lengths.hear alpha (s.settle alpha ps) p
    by_cases ht : p.type = .grow
    · unfold hear at h ⊢
      rw [if_pos ht] at h
      rw [if_pos ht, if_pos ht]
      change c ≤ max (s.settle alpha ps).maxThreshold p.maxThreshold at h
      exact grow_congr (by rw [maxThreshold_settle_raise, max_right_comm, Nat.max_eq_left h])
    · rw [hear_of_ne ht] at h
      rw [ih h]

end Lengths

def Endpoint.lengths (v : Endpoint) : Lengths := ⟨v.readerlength, v.writerlength, v.maxThreshold⟩

namespace Link

/-- The end `mode`. -/
def endpoint (l : Link) : Mode → Endpoint
  | .read => l.reader
  | .write => l.writer

/-- What the end `mode` has sent and the other one has not read. -/
def sent (l : Link) : Mode → Wire
  | .read => l.toWriter
  | .write => l.toReader

end Link

/-- No packet on the way asks for a growth. -/
def NoGrow (wire : Wire) : Prop := ∀ p ∈ headers wire, p.type ≠ .grow

instance (wire : Wire) : Decidable (NoGrow wire) := inferInstanceAs (Decidable (∀ p ∈ headers wire, p.type ≠ .grow))

theorem NoGrow.of_headers {wire : Wire} (h : headers wire = []) : NoGrow wire := fun p hp => by
  rw [h] at hp
  cases hp

variable {k : KernelBase} {v v' : Endpoint} {l l' : Link} {act : SideAct} {inbox wire rest sent : Wire} {p : Packet}
  {peerEnded abandons : Bool} {growth : Option (Nat × Nat)} {r : Endpoint.Report} {mode : Mode} {alpha : Alpha}

/-- What a step can do to the lengths of an end, and the packets that matter for the lengths of the other one. -/
inductive GrowthStep (v : Endpoint) (inbox : Wire) (growth : Option (Nat × Nat)) (mode : Mode) (v' : Endpoint)
    (rest sent : Wire) : Prop
  | still : v'.lengths = v.lengths → v'.pendingGrow = v.pendingGrow →
      (headers rest = headers inbox ∨ ∃ p, p.type ≠ .grow ∧ headers inbox = p :: headers rest) → NoGrow sent →
      GrowthStep v inbox growth mode v' rest sent
  | grows {len mt : Nat} : growth = some (len, mt) → v'.lengths = v.lengths.grow v.alpha len mt → v'.pendingGrow = true →
      rest = inbox → sent = [] → GrowthStep v inbox growth mode v' rest sent
  | hears {p : Packet} : headers inbox = p :: headers rest → p.type = .grow → v'.lengths = v.lengths.hear v.alpha p →
      v'.pendingGrow = v.pendingGrow → sent = [] → GrowthStep v inbox growth mode v' rest sent
  | tells {p : Packet} {ps : List Packet} : v.pendingGrow = true → v'.pendingGrow = false → v'.lengths = v.lengths →
      rest = inbox → headers sent = p :: ps → p.type = .grow → p.queueSize = u32 v.lengths.sum →
      p.maxThreshold = v.maxThreshold → (∀ p ∈ ps, p.type ≠ .grow) → GrowthStep v inbox growth mode v' rest sent
  | raises {p : Packet} : mode = .read → headers inbox = p :: headers rest → p.type = .enqueue →
      v'.lengths = v.lengths.raise p.count → v'.pendingGrow = v.pendingGrow → sent = [] →
      GrowthStep v inbox growth mode v' rest sent

theorem EndpointStep.growthStep (h : EndpointStep v inbox peerEnded growth abandons mode act v' rest sent) :
    GrowthStep v inbox growth mode v' rest sent := by
  have hnone : ∀ {wire : Wire} {p : Packet}, wire = [.header p] → p.type ≠ .grow → NoGrow wire := by
    rintro _ p rfl ht q hq
    obtain rfl : q = p := by simpa [headers] using hq
    exact ht
  cases h with
  | grows hg => exact .grows hg rfl rfl rfl rfl
  | @hearsGrow _ p _ hin ht => exact .hears (by rw [hin]; rfl) ht (if_pos ht).symm rfl rfl
  | @hears _ p _ hin ht =>
    refine .still rfl rfl (.inr ⟨p, ?_, by rw [hin]; rfl⟩) (.of_headers rfl)
    rcases ht with ht | ht | ht <;> rw [ht] <;> decide
  | @hearsEnd _ p _ hin _ ht =>
    refine .still rfl rfl (.inr ⟨p, ?_, by rw [hin]; rfl⟩) (.of_headers rfl)
    cases mode <;> rw [ht] <;> decide
  | @reports _ _ r _ _ _ _ _ hfits =>
    cases hgrow : r.grow with
    | none =>
      refine .still rfl ?_ (.inl rfl) fun p hp ht => ?_
      · show (v.pendingGrow && r.grow.isNone) = v.pendingGrow
        rw [hgrow, Option.isNone_none, Bool.and_true]
      · rw [Framing.headers_map] at hp
        rw [hfits.mem_grow hp ht] at hgrow
        cases hgrow
    | some p =>
      obtain ⟨h1, -, ht, -, hq, hm⟩ := hfits.grow p hgrow
      refine .tells h1 ?_ rfl rfl ?_ ht hq hm fun p hp => hfits.ne_grow hp
      · show (v.pendingGrow && r.grow.isNone) = false
        rw [hgrow, Option.isNone_some, Bool.and_false]
      · rw [Framing.headers_map, Endpoint.Report.packets_eq, hgrow]
        rfl
  | @hearsDequeue p _ _ hin ht =>
    exact .still rfl rfl (.inr ⟨p, by rw [ht]; decide, by rw [hin]; rfl⟩) (.of_headers rfl)
  | begins _ _ _ _ ht => exact .still rfl rfl (.inl rfl) (hnone rfl (by rw [ht]; decide))
  | sends => exact .still rfl rfl (.inl rfl) (.of_headers rfl)
  | @accepts p _ _ _ _ hin ht _ _ hover hlen =>
    refine .raises rfl (by rw [hin]; rfl) ht (congrArg (Lengths.mk v.readerlength v.writerlength) ?_) rfl rfl
    rcases hlen with ⟨hfalse, -, rfl⟩ | ⟨-, -, rfl⟩
    · rw [hfalse, eq_comm, Bool.or_eq_false_iff, decide_eq_false_iff_not, decide_eq_false_iff_not] at hover
      exact (Nat.max_eq_left (Nat.le_of_not_lt hover.2)).symm
    · rfl
  | receives hin => exact .still rfl rfl (.inl (by rw [hin]; rfl)) (.of_headers rfl)
  | _ => exact .still rfl rfl (.inl rfl) (.of_headers rfl)

/-- A step of the link is a step of one end, with its own inbox. -/
theorem LinkStep.endpointStep {m : Mode} (h : LinkStep growth abandons l ⟨m, act⟩ l') : ∃ v rest new peerEnded,
    EndpointStep (l.endpoint m) (l.sent m.other) peerEnded growth abandons m act v rest new ∧ l'.endpoint m = v ∧
      l'.endpoint m.other = l.endpoint m.other ∧ l'.sent m = l.sent m ++ new ∧ l'.sent m.other = rest := by
  cases h with
  | writer h => exact ⟨_, _, _, _, h, rfl, rfl, rfl, rfl⟩
  | reader h => exact ⟨_, _, _, _, h, rfl, rfl, rfl, rfl⟩

private theorem GrowthStep.maxThreshold_le (h : GrowthStep v inbox growth mode v' rest sent) :
    v.maxThreshold ≤ v'.maxThreshold := by
  have hle : v.lengths.maxThreshold ≤ v'.lengths.maxThreshold := by
    cases h with
    | still h => exact Nat.le_of_eq (congrArg _ h.symm)
    | grows _ h => exact h ▸ Nat.le_max_left _ _
    | hears _ _ h => exact h ▸ Lengths.le_hear
    | tells _ _ h => exact Nat.le_of_eq (congrArg _ h.symm)
    | raises _ _ _ h => exact h ▸ Nat.le_max_left _ _
  exact hle

/-- The enqueue packets that an end sends are no larger than its threshold. -/
theorem EndpointStep.count_le (h : EndpointStep v inbox peerEnded growth abandons mode act v' rest sent) (hb : v.Bounded)
    (hp : p ∈ headers sent) (ht : p.type = .enqueue) : p.count ≤ v.maxThreshold := by
  cases h with
  | reports _ _ _ hfits =>
    rw [Framing.headers_map] at hp
    exact absurd ht (hfits.sentBy hb hp).2
  | begins _ _ _ _ _ _ _ hmt =>
    obtain rfl : p = _ := by simpa [headers] using hp
    exact hmt
  | sends => cases hp
  | _ => cases hp

/-- No packet on the way to the reader is larger than the threshold of the writer. -/
def Link.Limited (l : Link) : Prop := ∀ p ∈ headers l.toReader, p.type = .enqueue → p.count ≤ l.writer.maxThreshold

theorem Link.Limited.step (h : l.Limited) (hb : l.writer.Bounded) {a : PairAct} (hs : LinkStep growth abandons l a l') :
    l'.Limited := by
  cases hs with
  | @writer act v rest sent hs =>
    intro p hp ht
    refine Nat.le_trans ?_ hs.growthStep.maxThreshold_le
    change p ∈ headers (l.toReader ++ sent) at hp
    rw [Framing.headers_append] at hp
    rcases List.mem_append.1 hp with hp | hp
    · exact h p hp ht
    · exact hs.count_le hb hp ht
  | reader hs => exact fun p hp => h p (Framing.mem_headers.2 (hs.mem_inbox (Framing.mem_headers.1 hp)))

/-! ### Agreement -/

namespace Link

/-- The other end is not in the middle of a growth. -/
def Uncrossed (l : Link) (m : Mode) : Prop := (l.endpoint m.other).pendingGrow = false ∧ NoGrow (l.sent m.other)

instance (l : Link) (m : Mode) : Decidable (l.Uncrossed m) := inferInstanceAs (Decidable (_ ∧ _))

/-- What the other end will have when it has processed what is on its way. -/
def settled (l : Link) (m : Mode) : Lengths :=
  (l.endpoint m.other).lengths.settle l.writer.alpha (headers (l.sent m))

/-- Only the end `m` is growing, and what it has told, or will tell, the other one makes the other one agree. -/
structure Leads (l : Link) (m : Mode) : Prop where
  uncrossed : l.Uncrossed m
  stable : (l.endpoint m).pendingGrow = true → (l.endpoint m).lengths.Stable l.writer.alpha
  settled : (l.endpoint m).pendingGrow = false → l.settled m = (l.endpoint m).lengths
  le : (l.settled m).maxThreshold ≤ (l.endpoint m).maxThreshold

theorem Framed.alpha_eq (h : l.Framed) (m : Mode) : (l.endpoint m).alpha = l.writer.alpha := by
  cases m with
  | read => exact h.alpha
  | write => rfl

end Link

theorem LinkStep.alpha_eq {a : PairAct} (h : LinkStep growth abandons l a l') : l'.writer.alpha = l.writer.alpha := by
  cases h with
  | writer h => exact h.alpha_eq
  | reader => rfl

@[simp] theorem Mode.other_other (m : Mode) : m.other.other = m := by
  cases m <;> rfl

theorem Lengths.settle_cons {s : Lengths} {ps : List Packet} :
    s.settle alpha (p :: ps) = (s.hear alpha p).settle alpha ps := rfl

theorem NoGrow.headers_eq (h : NoGrow inbox) (hrest : headers rest = headers inbox ∨
    ∃ p, p.type ≠ .grow ∧ headers inbox = p :: headers rest) : NoGrow rest := by
  intro p hp
  rcases hrest with hrest | ⟨q, -, hrest⟩
  · exact h p (hrest ▸ hp)
  · exact h p (by rw [hrest]; exact List.mem_cons_of_mem _ hp)

namespace Link

variable {m : Mode}

/-- What an end sends is processed after what is on its way. -/
theorem settled_of_sent (halpha : l'.writer.alpha = l.writer.alpha)
    (hother : l'.endpoint m.other = l.endpoint m.other) (hsent : l'.sent m = l.sent m ++ sent) :
    l'.settled m = (l.settled m).settle l.writer.alpha (headers sent) := by
  rw [settled, settled, halpha, hother, hsent, Framing.headers_append, Lengths.settle_append]

theorem settled_of_ne {ps : List Packet} (hin : headers (l.sent m) = p :: ps) (ht : p.type ≠ .grow) :
    l.settled m = (l.endpoint m.other).lengths.settle l.writer.alpha ps := by
  rw [settled, hin, Lengths.settle_cons, Lengths.hear_of_ne ht]

/-- The reader knows the count of a packet already when its threshold is that of the writer at least. -/
theorem raise_eq (hlim : l.Limited) (hle : (l.settled .read).maxThreshold ≤ l.reader.maxThreshold)
    (hin : headers l.toReader = p :: headers rest) (ht : p.type = .enqueue) :
    l.reader.lengths.raise p.count = l.reader.lengths := by
  have hcount : p.count ≤ l.writer.maxThreshold := hlim p (by rw [hin]; exact List.mem_cons_self) ht
  exact congrArg (Lengths.mk _ _) (Nat.max_eq_left (hcount.trans (Lengths.le_settle.trans hle)))

end Link

namespace Link.Leads

variable {m : Mode}

/-- The end that leads takes a step. -/
theorem leader (h : l.Leads m) (hf : l.Framed) (hlim : l.Limited)
    (hgrow : ∀ len mt, growth = some (len, mt) →
      ((l.endpoint m).lengths.grow l.writer.alpha len mt).Stable l.writer.alpha)
    (hs : LinkStep growth abandons l ⟨m, act⟩ l') : l'.Leads m := by
  have halpha := hs.alpha_eq
  have hend := hf.alpha_eq m
  obtain ⟨v, rest, new, peerEnded, hv, rfl, hother, hsent, rfl⟩ := hs.endpointStep
  obtain ⟨⟨h1, h2⟩, h3, h4, h5⟩ := h
  have hset := settled_of_sent halpha hother hsent
  have hkeep : NoGrow new → l'.settled m = l.settled m := fun hnew => hset.trans (Lengths.settle_of_forall hnew)
  -- the lengths stay, and so does what the other end will have
  have hsame : NoGrow (l'.sent m.other) → (l'.endpoint m).lengths = (l.endpoint m).lengths →
      (l'.endpoint m).pendingGrow = (l.endpoint m).pendingGrow → NoGrow new → l'.Leads m := by
    intro hrest hlen hpend hnew
    refine ⟨⟨by rw [hother]; exact h1, hrest⟩, fun hp => ?_, fun hp => ?_, ?_⟩
    · rw [hlen, halpha]
      exact h3 (hpend ▸ hp)
    · rw [hkeep hnew, hlen]
      exact h4 (hpend ▸ hp)
    · rw [hkeep hnew]
      exact h5.trans (Nat.le_of_eq (congrArg Lengths.maxThreshold hlen.symm))
  cases hv.growthStep with
  | still hlen hpend hrest hnew => exact hsame (h2.headers_eq hrest) hlen hpend hnew
  | grows hg hlen hpend hrest hnew =>
    rw [hend] at hlen
    refine ⟨⟨by rw [hother]; exact h1, by rw [hrest]; exact h2⟩, fun _ => ?_, fun hp => ?_, ?_⟩
    · rw [hlen, halpha]
      exact hgrow _ _ hg
    · exact absurd (hp.symm.trans hpend) (by decide)
    · rw [hkeep (.of_headers (by rw [hnew]; rfl))]
      exact h5.trans hv.growthStep.maxThreshold_le
  | hears hin ht => exact absurd ht (h2 _ (by rw [hin]; exact List.mem_cons_self))
  | @tells p ps hp hp' hlen hrest hnew ht hq hm hps =>
    have hstable := h3 hp
    have hgrown : l'.settled m = (l'.endpoint m).lengths := by
      rw [hset, hnew, Lengths.settle_cons, Lengths.settle_of_forall hps, hlen, Lengths.hear, if_pos ht, hq, hm]
      refine Eq.trans (Lengths.grow_congr ?_) hstable
      rw [Nat.max_eq_right h5]
      exact (Nat.max_self _).symm
    refine ⟨⟨by rw [hother]; exact h1, by rw [hrest]; exact h2⟩, fun hp => ?_, fun _ => hgrown, ?_⟩
    · exact absurd (hp.symm.trans hp') (by decide)
    · rw [hgrown]
      exact Nat.le_refl _
  | @raises p hm hin ht hlen hpend hnew =>
    subst hm
    -- the reader leads, so its threshold is that of the writer at least
    have hraise := raise_eq hlim h5 hin ht
    exact hsame (h2.headers_eq (.inr ⟨p, by rw [ht]; decide, hin⟩)) (hlen.trans hraise) hpend
      (.of_headers (by rw [hnew]; rfl))

/-- The other end takes a step; it may take the lead. -/
theorem follower (h : l.Leads m) (hf : l.Framed) (hlim : l.Limited)
    (hgrow : ∀ len mt, growth = some (len, mt) → l.Uncrossed m.other ∧
      ((l.endpoint m.other).lengths.grow l.writer.alpha len mt).Stable l.writer.alpha)
    (hs : LinkStep growth abandons l ⟨m.other, act⟩ l') : l'.Leads m ∨ l'.Leads m.other := by
  have halpha := hs.alpha_eq
  have hend := hf.alpha_eq m.other
  obtain ⟨v, rest, new, peerEnded, hv, rfl, hother, hsent, rfl⟩ := hs.endpointStep
  rw [Mode.other_other] at hother hv
  obtain ⟨⟨h1, h2⟩, h3, h4, h5⟩ := h
  -- the leading end does not change, and what the other one will have stays the same
  have hsame : NoGrow new → (l'.endpoint m.other).pendingGrow = (l.endpoint m.other).pendingGrow →
      (l.endpoint m).pendingGrow = true ∧ (l'.settled m).maxThreshold ≤ (l.endpoint m).maxThreshold ∨
        l'.settled m = l.settled m → l'.Leads m := by
    intro hnew hpend hset
    refine ⟨⟨hpend.trans h1, fun p hp => ?_⟩, fun hp => ?_, fun hp => ?_, ?_⟩
    · rw [hsent, Framing.headers_append] at hp
      exact (List.mem_append.1 hp).elim (h2 p) (hnew p)
    · rw [hother, halpha] at *
      exact h3 hp
    · rw [hother] at *
      rcases hset with ⟨hset, -⟩ | hset
      · exact absurd (hset.symm.trans hp) (by decide)
      · exact hset.trans (h4 hp)
    · rw [hother]
      rcases hset with ⟨-, hset⟩ | hset
      · exact hset
      · exact hset ▸ h5
  have hsettled : l'.settled m = (l'.endpoint m.other).lengths.settle l.writer.alpha (headers (l'.sent m)) := by
    rw [Link.settled, halpha]
  cases hv.growthStep with
  | still hlen hpend hrest hnew =>
    refine .inl (hsame hnew hpend (.inr ?_))
    rw [hsettled, hlen, Link.settled]
    rcases hrest with hrest | ⟨p, hp, hrest⟩
    · rw [hrest]
    · rw [hrest, Lengths.settle_cons, Lengths.hear_of_ne hp]
  | grows hg hlen hpend hrest hnew =>
    obtain ⟨⟨hlead, hquiet⟩, hstable⟩ := hgrow _ _ hg
    rw [Mode.other_other] at hlead hquiet
    rw [hend] at hlen
    have hold : l.settled m = (l.endpoint m.other).lengths := Lengths.settle_of_forall hquiet
    have hnosent : NoGrow (l'.sent m.other) := by
      rw [hsent, hnew, List.append_nil]
      exact h2
    refine .inr ⟨⟨?_, ?_⟩, fun _ => ?_, fun hp => ?_, ?_⟩
    · rw [Mode.other_other, hother]
      exact hlead
    · rw [Mode.other_other, hrest]
      exact hquiet
    · rw [hlen, halpha]
      exact hstable
    · exact absurd (hp.symm.trans hpend) (by decide)
    · rw [Link.settled, Mode.other_other, hother, Lengths.settle_of_forall hnosent, ← h4 hlead, hold]
      exact hv.growthStep.maxThreshold_le
  | hears hin ht hlen hpend hnew =>
    refine .inl (hsame (.of_headers (by rw [hnew]; rfl)) hpend (.inr ?_))
    rw [hsettled, hlen, Link.settled, hin, Lengths.settle_cons, hend]
  | tells hp => exact absurd (h1.symm.trans hp) (by decide)
  | @raises p hm hin ht hlen hpend hnew =>
    obtain rfl : m = .write := by cases m <;> simp [Mode.other] at hm ⊢
    have hcount : p.count ≤ l.writer.maxThreshold :=
      hlim p (by rw [show headers l.toReader = _ from hin]; exact List.mem_cons_self) ht
    have hskip := (settled_of_ne hin (by rw [ht]; decide)).symm
    refine .inl (hsame (.of_headers (by rw [hnew]; rfl)) hpend ?_)
    cases hpending : (l.endpoint .write).pendingGrow with
    | true =>
      refine .inl ⟨rfl, ?_⟩
      rw [hsettled, hlen, Lengths.maxThreshold_settle_raise, hskip]
      exact Nat.max_le.2 ⟨h5, hcount⟩
    | false =>
      refine .inr ?_
      rw [hsettled, hlen, Lengths.settle_raise, hskip]
      rw [hskip, h4 hpending]
      exact hcount

end Link.Leads

/-- The growths do not cross, and the sum that is announced splits into the same parts. -/
def Agreeing (k : KernelBase) (s : PairState) (a : PairAct) : Prop :=
  ∀ r ∈ (s.side a.mode).growth k a.act, s.link.Uncrossed a.mode ∧
    ((s.link.endpoint a.mode).lengths.grow s.link.writer.alpha r.1 r.2).Stable s.link.writer.alpha

instance (alpha : Alpha) (s : Lengths) : Decidable (s.Stable alpha) := inferInstanceAs (Decidable (_ = _))

instance (k : KernelBase) : DecidableRel (Agreeing k) := fun s a =>
  inferInstanceAs (Decidable (∀ r ∈ (s.side a.mode).growth k a.act, _ ∧ _))

private theorem leads_of_reachableBy {s : PairState} (h : (remotePair k).ReachableBy (Agreeing k) s) :
    s.link.Limited ∧ ∃ m, s.link.Leads m := by
  refine link_invariant (I := fun l => l.Limited ∧ ∃ m, l.Leads m) ?_ ?_ h
  · exact fun attr _ _ => ⟨nofun, .write, ⟨rfl, nofun⟩, nofun, fun _ => rfl, Nat.le_refl _⟩
  · rintro s ⟨m, act⟩ l' hp ⟨hlim, m', hlead⟩ hok hs
    refine ⟨hlim.step hp.framed.writer hs, ?_⟩
    have hend : s.link.endpoint m = (s.side m).endpoint := by cases m <;> rfl
    by_cases hm : m = m'
    · subst hm
      exact ⟨m, hlead.leader hp.framed hlim (fun len mt hg => (hok (len, mt) hg).2) hs⟩
    · obtain rfl : m = m'.other := by cases m <;> cases m' <;> simp_all [Mode.other]
      exact (hlead.follower hp.framed hlim (fun len mt hg => hok (len, mt) hg) hs).elim (⟨_, ·⟩) (⟨_, ·⟩)

end ProcessNetwork
