import ProcessNetwork.RemoteLink

/-!
# The shutdown handshake

Each end announces once that it is shut down, and sends nothing after that.  So there are three states of a direction
(`Handshake`): the end is open; its announcement is the last packet on the way to the other end; or the other end has
read the announcement, and nothing is on the way.
-/

namespace ProcessNetwork

/-- The packet announces an end. -/
def Packet.isEnd (p : Packet) : Bool := p.type = .endOfWrite || p.type = .endOfRead

/-- No packet announces an end. -/
def NoEnd (wire : Wire) : Prop := ∀ p, .header p ∈ wire → p.isEnd = false

/-- The state of the handshake in one direction: whether the sender has announced its end, whether the receiver has heard
it, and what is on the way. -/
inductive Handshake (sentEnd heard : Bool) (wire : Wire) : Prop
  | opened : sentEnd = false → heard = false → NoEnd wire → Handshake sentEnd heard wire
  | announced {front : Wire} {p : Packet} : sentEnd = true → heard = false → wire = front ++ [.header p] →
      p.isEnd = true → NoEnd front → Handshake sentEnd heard wire
  | ended : sentEnd = true → heard = true → wire = [] → Handshake sentEnd heard wire

variable {k : KernelBase} {arithmetic : Arithmetic} {v v' : Endpoint} {mode : Mode} {act : SideAct} {l l' : Link}
  {inbox wire rest sent : Wire}
  {peerEnded sentEnd heard abandons : Bool} {growth : Option (Nat × Nat)} {p : Packet} {x : Item Packet Byte}

private theorem NoEnd.append (h : NoEnd wire) (h' : NoEnd sent) : NoEnd (wire ++ sent) := fun p hp =>
  (List.mem_append.1 hp).elim (h p) (h' p)

namespace Handshake

/-- The receiver takes something that does not announce the end. -/
theorem take (h : Handshake sentEnd heard (x :: rest)) (hx : ∀ p, x = .header p → p.isEnd = false) :
    Handshake sentEnd heard rest := by
  cases h with
  | opened h1 h2 h3 => exact .opened h1 h2 fun p hp => h3 p (List.mem_cons_of_mem _ hp)
  | @announced front p h1 h2 h3 h4 h5 =>
    cases front with
    | nil =>
      obtain ⟨rfl, rfl⟩ : x = .header p ∧ rest = [] := by simpa using h3
      exact absurd ((hx p rfl).symm.trans h4) (by decide)
    | cons y front =>
      obtain ⟨rfl, rfl⟩ : x = y ∧ rest = front ++ [.header p] := by simpa using h3
      exact .announced h1 h2 rfl h4 fun p hp => h5 p (List.mem_cons_of_mem _ hp)
  | ended _ _ h3 => cases h3

/-- The receiver hears the end, which comes last. -/
theorem hear (h : Handshake sentEnd heard (.header p :: rest)) (hp : p.isEnd = true) : Handshake sentEnd true rest := by
  cases h with
  | opened h1 h2 h3 => exact absurd (hp.symm.trans (h3 p List.mem_cons_self)) (by decide)
  | @announced front p' h1 h2 h3 h4 h5 =>
    cases front with
    | nil =>
      obtain ⟨-, rfl⟩ : p = p' ∧ rest = [] := by simpa using h3
      exact .ended h1 rfl rfl
    | cons y front =>
      obtain ⟨rfl, -⟩ : .header p = y ∧ rest = front ++ [.header p'] := by simpa using h3
      exact absurd (hp.symm.trans (h5 p List.mem_cons_self)) (by decide)
  | ended _ _ h3 => cases h3

/-- The sender sends something that does not announce its end. -/
theorem send (h : Handshake false heard wire) (hs : NoEnd sent) : Handshake false heard (wire ++ sent) := by
  cases h with
  | opened h1 h2 h3 => exact .opened h1 h2 (h3.append hs)
  | announced h1 => cases h1
  | ended h1 => cases h1

/-- The sender announces its end. -/
theorem announce (h : Handshake false heard wire) (hs : NoEnd sent) (hp : p.isEnd = true) :
    Handshake true heard (wire ++ (sent ++ [.header p])) := by
  cases h with
  | opened h1 h2 h3 => exact .announced rfl h2 (List.append_assoc _ _ _).symm hp (h3.append hs)
  | announced h1 => cases h1
  | ended h1 => cases h1

/-- Whoever has announced its end and has nothing on the way has been heard. -/
theorem heard_of_nil (h : Handshake sentEnd heard []) (hs : sentEnd = true) : heard = true := by
  cases h with
  | opened h1 => exact absurd (h1.symm.trans hs) (by decide)
  | announced _ _ h3 => simp at h3
  | ended _ h2 => exact h2

theorem nil_of_heard (h : Handshake sentEnd heard wire) (hh : heard = true) : wire = [] := by
  cases h with
  | opened _ h2 => exact absurd (h2.symm.trans hh) (by decide)
  | announced _ h2 => exact absurd (h2.symm.trans hh) (by decide)
  | ended _ _ h3 => exact h3

end Handshake

/-! ### Reports -/

namespace Endpoint.Report.Fits

variable {r : Report}

/-- After the announcement nothing is sent. -/
theorem packets_eq_nil (hr : r.Fits v.toBooks v.count v.maxThreshold mode) (hs : v.sentEnd = true) : r.packets = [] := by
  have hno : ∀ {p : Packet}, v.sentEnd = false → False := fun h => by rw [hs] at h; cases h
  have h1 : r.grow = none := Option.eq_none_iff_forall_not_mem.2 fun p hp => hno (p := p) (hr.grow p hp).2.1
  have h2 : r.dequeue = none := Option.eq_none_iff_forall_not_mem.2 fun p hp => hno (p := p) (hr.dequeue p hp).2.1
  have h3 : r.informs = [] := List.eq_nil_iff_forall_not_mem.2 fun p hp => hno (p := p) (hr.informs p hp).1
  have h4 : r.ends = none := Option.eq_none_iff_forall_not_mem.2 fun p hp => hno (p := p) (hr.ends p hp).1
  rw [packets, h1, h2, h3, h4]
  rfl

theorem noEnd_front (hr : r.Fits v.toBooks v.count v.maxThreshold mode) :
    NoEnd ((r.grow.toList ++ r.dequeue.toList ++ r.informs).map .header) := by
  intro p hp
  obtain ⟨p', hp', heq⟩ := List.mem_map.1 hp
  cases heq
  simp only [List.mem_append, Option.mem_toList] at hp'
  rcases hp' with (hp | hp) | hp
  · simp [Packet.isEnd, (hr.grow p hp).2.2.1]
  · simp [Packet.isEnd, (hr.dequeue p hp).2.2.2.1]
  · obtain ⟨-, -, ht | ht⟩ := hr.informs p hp
    · simp [Packet.isEnd, ht]
    · cases mode <;> simp [Packet.isEnd, ht]

theorem isEnd (hr : r.Fits v.toBooks v.count v.maxThreshold mode) (hp : p ∈ r.ends) : p.isEnd = true := by
  obtain ⟨-, -, ht⟩ := hr.ends p hp
  cases mode <;> simp [Packet.isEnd, ht]

end Endpoint.Report.Fits

namespace EndpointStep

/-- The direction in which the end sends. -/
theorem handshake_sent (h : EndpointStep v inbox peerEnded growth abandons mode act v' rest sent) (hv : v.Shaped mode)
    (hh : Handshake v.sentEnd heard wire) : Handshake v'.sentEnd heard (wire ++ sent) := by
  cases h with
  | @reports _ _ r _ _ _ _ _ hfits =>
    show Handshake (v.sentEnd || r.ends.isSome) heard _
    cases hs : v.sentEnd with
    | true =>
      rw [hs] at hh
      rw [hfits.packets_eq_nil hs, List.map_nil, List.append_nil, Bool.true_or]
      exact hh
    | false =>
      rw [hs] at hh
      rw [Endpoint.Report.packets, List.map_append]
      cases he : r.ends with
      | none =>
        rw [Option.toList_none, List.map_nil, List.append_nil]
        exact hh.send hfits.noEnd_front
      | some p => exact hh.announce hfits.noEnd_front (hfits.isEnd he)
  | begins _ hs _ _ ht =>
    rw [hs] at hh
    refine (congrArg (Handshake · heard _) hs).mpr (hh.send fun p hp => ?_)
    obtain rfl : p = _ := by simpa using hp
    simp [Packet.isEnd, ht]
  | sends hp =>
    have hs := (hv.sending rfl (by rw [hp]; simp)).1
    rw [hs] at hh
    exact (congrArg (Handshake · heard _) hs).mpr (hh.send fun p hp => by simp at hp)
  | _ =>
    rw [List.append_nil]
    exact hh

/-- The direction in which the end receives. -/
theorem handshake_rest (h : EndpointStep v inbox peerEnded growth abandons mode act v' rest sent)
    (hh : Handshake sentEnd v.peerShutdown inbox) : Handshake sentEnd v'.peerShutdown rest := by
  have htake : ∀ {p : Packet} {rest : Wire}, inbox = .header p :: rest → p.isEnd = false →
      Handshake sentEnd v.peerShutdown rest := by
    intro p rest hin hp
    rw [hin] at hh
    refine hh.take fun p' heq => ?_
    obtain rfl : p = p' := by simpa using heq
    exact hp
  cases h with
  | hearsGrow hin ht => exact htake hin (by simp [Packet.isEnd, ht])
  | hears hin ht => exact htake hin (by rcases ht with ht | ht | ht <;> simp [Packet.isEnd, ht])
  | hearsEnd hin _ ht =>
    rw [hin] at hh
    refine hh.hear ?_
    cases mode <;> simp [Packet.isEnd, ht]
  | hearsDequeue hin ht => exact htake hin (by simp [Packet.isEnd, ht])
  | accepts hin ht => exact htake hin (by simp [Packet.isEnd, ht])
  | receives hin =>
    rw [hin] at hh
    exact hh.take nofun
  | _ => exact hh

/-- The end of the inbox is seen, and the socket closed, only after the handshake. -/
theorem ends_of_flags (h : EndpointStep v inbox peerEnded growth abandons mode act v' rest sent)
    (hh : Handshake peerEnded v.peerShutdown inbox) (heof : v.eof = true → v.peerShutdown = true)
    (hdead : v.dead = true → v.sentEnd = true ∧ v.peerShutdown = true) :
    (v'.eof = true → v'.peerShutdown = true) ∧ (v'.dead = true → v'.sentEnd = true ∧ v'.peerShutdown = true) := by
  cases h with
  | @reports _ _ r eof dead _ hinbox _ _ hd =>
    constructor
    · intro he
      change (v.eof || eof) = true at he
      show v.peerShutdown = true
      rcases Bool.or_eq_true_iff.1 he with he | he
      · exact heof he
      · obtain ⟨h1, h2⟩ := hinbox he
        rw [h1] at hh
        exact hh.heard_of_nil h2
    · intro he
      show (v.sentEnd || r.ends.isSome) = true ∧ v.peerShutdown = true
      rcases hd he with he | ⟨h1, h2⟩
      · obtain ⟨h1, h2⟩ := hdead he
        exact ⟨by rw [h1, Bool.true_or], h2⟩
      · exact ⟨h2, h1⟩
  | hearsEnd => exact ⟨fun _ => rfl, fun he => ⟨(hdead he).1, rfl⟩⟩
  | _ => exact ⟨heof, hdead⟩

end EndpointStep

/-- The handshake in both directions, and what the flags of the ends mean. -/
structure Link.Shutdown (l : Link) : Prop where
  toReader : Handshake l.writer.sentEnd l.reader.peerShutdown l.toReader
  toWriter : Handshake l.reader.sentEnd l.writer.peerShutdown l.toWriter
  eofWriter : l.writer.eof = true → l.writer.peerShutdown = true
  eofReader : l.reader.eof = true → l.reader.peerShutdown = true
  deadWriter : l.writer.dead = true → l.writer.sentEnd = true ∧ l.writer.peerShutdown = true
  deadReader : l.reader.dead = true → l.reader.sentEnd = true ∧ l.reader.peerShutdown = true

theorem Link.Shutdown.step (h : l.Shutdown) (hw : l.writer.Shaped .write) (hr : l.reader.Shaped .read) {a : PairAct}
    (hs : LinkStep growth abandons l a l') : l'.Shutdown := by
  cases hs with
  | writer hs =>
    obtain ⟨h1, h2⟩ := hs.ends_of_flags h.toWriter h.eofWriter h.deadWriter
    exact ⟨hs.handshake_sent hw h.toReader, hs.handshake_rest h.toWriter, h1, h.eofReader, h2, h.deadReader⟩
  | reader hs =>
    obtain ⟨h1, h2⟩ := hs.ends_of_flags h.toReader h.eofReader h.deadReader
    exact ⟨hs.handshake_rest h.toReader, hs.handshake_sent hr h.toWriter, h.eofWriter, h1, h.deadWriter, h2⟩

theorem shutdown_of_reachableBy {ok : PairState → PairAct → Prop} {s : PairState}
    (h : (remotePair k arithmetic).ReachableBy ok s) : s.link.Shutdown := by
  refine link_invariant (I := Link.Shutdown) ?_ ?_ h
  · intro attr _ _
    exact ⟨.opened rfl rfl fun p hp => absurd hp List.not_mem_nil, .opened rfl rfl fun p hp => absurd hp List.not_mem_nil,
      nofun, nofun, nofun, nofun⟩
  · exact fun s a l' hp hI _ hs => hI.step (hp.shaped .write) (hp.shaped .read) hs

end ProcessNetwork
