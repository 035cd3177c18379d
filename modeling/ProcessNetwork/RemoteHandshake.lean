import ProcessNetwork.RemoteAccounting
import ProcessNetwork.RemoteDuty
import ProcessNetwork.RemoteTranscript

/-!
# What the shutdown handshake achieves

Each side announces its end at most once and sends nothing after it (`EndsOnce`); a side is dead only when it has
announced its own end and has processed the announcement of the other one; the assertions of the handshake hold; and when
everything has come to rest, the shutdown of one end has reached both (`shutdown_handshake`).
-/

namespace ProcessNetwork

open Framing (headers headers_append headers_map mem_headers)

variable {k : KernelBase} {arithmetic : Arithmetic} {v v' : Endpoint} {mode : Mode} {act : SideAct}
  {inbox rest sent taken : Wire}
  {peerEnded abandons : Bool} {growth : Option (Nat × Nat)}

/-! ### Announcements -/

/-- Nothing comes after a packet that announces an end. -/
def EndsOnce (ps : List Packet) : Prop := ∀ front p rest, ps = front ++ p :: rest → p.isEnd = true → rest = []

private theorem endsOnce_of_forall {ps : List Packet} (h : ∀ p ∈ ps, p.isEnd = false) : EndsOnce ps := by
  rintro front p rest rfl hp
  exact absurd (hp.symm.trans (h p (by simp))) (by decide)

private theorem endsOnce_append_singleton {ps : List Packet} (p : Packet) (h : ∀ p ∈ ps, p.isEnd = false) :
    EndsOnce (ps ++ [p]) := by
  intro front p' rest heq hp
  rcases List.eq_nil_or_concat rest with hrest | ⟨rest', x, hrest⟩
  · exact hrest
  · -- then the announcement is among the packets before the last
    exfalso
    rw [hrest, List.concat_eq_append, ← List.cons_append, ← List.append_assoc] at heq
    obtain ⟨rfl, -⟩ := List.append_inj' heq rfl
    exact absurd (hp.symm.trans (h p' (by simp))) (by decide)

namespace EndpointStep

/-- What an end sends before, when and after it announces its end. -/
theorem ends_sent (h : EndpointStep v inbox peerEnded growth abandons mode act v' rest sent) (hv : v.Shaped mode) :
    v.sentEnd = true ∧ v'.sentEnd = true ∧ headers sent = [] ∨
    v.sentEnd = false ∧ v'.sentEnd = false ∧ (∀ p ∈ headers sent, p.isEnd = false) ∨
    v.sentEnd = false ∧ v'.sentEnd = true ∧ ∃ front p, headers sent = front ++ [p] ∧ p.isEnd = true ∧
      ∀ p ∈ front, p.isEnd = false := by
  have hsame : v'.sentEnd = v.sentEnd → headers sent = [] →
      v.sentEnd = true ∧ v'.sentEnd = true ∧ headers sent = [] ∨
      v.sentEnd = false ∧ v'.sentEnd = false ∧ (∀ p ∈ headers sent, p.isEnd = false) ∨
      v.sentEnd = false ∧ v'.sentEnd = true ∧ ∃ front p, headers sent = front ++ [p] ∧ p.isEnd = true ∧
        ∀ p ∈ front, p.isEnd = false := by
    intro hv' hnil
    cases hs : v.sentEnd with
    | true => exact .inl ⟨rfl, hv'.trans hs, hnil⟩
    | false => exact .inr (.inl ⟨rfl, hv'.trans hs, by rw [hnil]; nofun⟩)
  cases h with
  | @reports _ _ r _ _ _ _ _ hfits =>
    rw [headers_map]
    cases hs : v.sentEnd with
    | true => exact .inl ⟨rfl, by simp [Endpoint.Report.send, hs], hfits.packets_eq_nil hs⟩
    | false =>
      refine .inr ?_
      have hfront : ∀ p ∈ r.grow.toList ++ r.dequeue.toList ++ r.informs, p.isEnd = false := fun p hp =>
        hfits.noEnd_front p (List.mem_map_of_mem hp)
      cases he : r.ends with
      | none =>
        refine .inl ⟨rfl, by simp [Endpoint.Report.send, hs, he], ?_⟩
        rw [Endpoint.Report.packets, he, Option.toList_none, List.append_nil]
        exact hfront
      | some p =>
        refine .inr ⟨rfl, by simp [Endpoint.Report.send, he], _, p, ?_, hfits.isEnd he, hfront⟩
        rw [Endpoint.Report.packets, he]
        rfl
  | begins _ hs _ _ ht =>
    refine .inr (.inl ⟨hs, hs, fun p hp => ?_⟩)
    obtain rfl : p = _ := by simpa [headers] using hp
    simp [Packet.isEnd, ht]
  | sends => exact hsame rfl rfl
  | _ => exact hsame rfl rfl

/-- An end knows that the other one is shut down only when it has processed its announcement. -/
theorem peerShutdown_of_taken (h : EndpointStep v inbox peerEnded growth abandons mode act v' rest sent)
    (htaken : taken ++ rest = inbox) (hv : v'.peerShutdown = true) :
    v.peerShutdown = true ∨ ∃ p ∈ headers taken, p.isEnd = true := by
  cases h with
  | @hearsEnd _ p rest hin _ ht =>
    refine .inr ⟨p, ?_, by cases mode <;> simp [Packet.isEnd, ht]⟩
    rw [hin] at htaken
    obtain rfl : taken = [.header p] := List.append_cancel_right (htaken.trans (List.singleton_append).symm)
    exact List.mem_singleton_self p
  | _ => exact .inl hv

end EndpointStep

/-- What the transcript says about the announcement of the end of the side `m`. -/
structure Announced (m : Mode) (s : PairState × Transcript) : Prop where
  notYet : (s.1.side m).q.sentEnd = false → ∀ p ∈ s.2.sent m, p.isEnd = false
  once : EndsOnce (s.2.sent m)
  sent : (s.1.side m).q.sentEnd = true → ∃ p ∈ s.2.sent m, p.isEnd = true
  processed : (s.1.side m.other).q.books.peerShutdown = true → ∃ p ∈ s.2.processed m, p.isEnd = true

namespace Announced

variable {s t : PairState × Transcript} {m : Mode} {r : SideStep}

private theorem step (h : Announced m s) (hs : PairSound k s.1) (hr : Transcribed k s t m act r) : Announced m t := by
  have hstep := ((hs.side m).next (hs.wellFormed m) hr.next).step
  rw [hs.mode m] at hstep
  have hother : (t.1.side m.other).q.books.peerShutdown = (s.1.side m.other).q.books.peerShutdown := by rw [hr.side_other]
  have hproc : (t.1.side m.other).q.books.peerShutdown = true → ∃ p ∈ t.2.processed m, p.isEnd = true := by
    rw [hother, hr.processed]
    exact h.processed
  rcases hstep.ends_sent (hs.shaped m) with ⟨h1, h2, hnil⟩ | ⟨h1, h2, hno⟩ | ⟨h1, h2, front, p, heq, hp, hno⟩
  · have hsent : t.2.sent m = s.2.sent m := by rw [hr.sent, hnil, List.append_nil]
    refine ⟨fun hf => ?_, hsent ▸ h.once, fun _ => hsent ▸ h.sent h1, hproc⟩
    rw [hr.side] at hf
    exact absurd (h2.symm.trans hf) (by decide)
  · have hall : ∀ p ∈ t.2.sent m, p.isEnd = false := by
      rw [hr.sent]
      exact fun p hp => (List.mem_append.1 hp).elim (h.notYet h1 p) (hno p)
    refine ⟨fun _ => hall, endsOnce_of_forall hall, fun hf => ?_, hproc⟩
    rw [hr.side] at hf
    exact absurd (h2.symm.trans hf) (by decide)
  · have hsent : t.2.sent m = (s.2.sent m ++ front) ++ [p] := by rw [hr.sent, heq, List.append_assoc]
    have hall : ∀ p ∈ s.2.sent m ++ front, p.isEnd = false := fun p hp =>
      (List.mem_append.1 hp).elim (h.notYet h1 p) (hno p)
    refine ⟨fun hf => ?_, hsent ▸ endsOnce_append_singleton p hall, fun _ => ⟨p, by rw [hsent]; simp, hp⟩, hproc⟩
    rw [hr.side] at hf
    exact absurd (h2.symm.trans hf) (by decide)

private theorem step_other (h : Announced m s) (hs : PairSound k s.1) (hr : Transcribed k s t m.other act r) :
    Announced m t := by
  have hmm : m.other.other = m := by cases m <;> rfl
  have hstep := ((hs.side m.other).next (hs.wellFormed m.other) hr.next).step
  have htaken := SideStep.taken_append hr.next
  have hside := hr.side_other
  have hsent := hr.sent_other
  have hproc := hr.processed_other
  rw [hmm] at hside hsent hproc hstep htaken
  refine ⟨?_, hsent ▸ h.once, ?_, fun hp => ?_⟩
  · rw [hside, hsent]
    exact h.notYet
  · rw [hside, hsent]
    exact h.sent
  · rw [hproc]
    rw [hr.side] at hp
    rcases hstep.peerShutdown_of_taken htaken hp with hp | ⟨p, hmem, hp⟩
    · obtain ⟨p, hmem, hp⟩ := h.processed hp
      exact ⟨p, List.mem_append_left _ hmem, hp⟩
    · exact ⟨p, List.mem_append_right _ hmem, hp⟩

end Announced

private theorem announced_of_transcribed {s : PairState × Transcript} (h : (transcribedPair k arithmetic).Reachable s)
    (m : Mode) :
    Announced m s := by
  refine h.invariant_of (I := fun s => ∀ m, Announced m s)
    (fun s hs => pairSound_of_reachableBy (reachable_of_transcribed hs))
    ?_ ?_ m
  · rintro ⟨s, w⟩ ⟨⟨attr, -, -, rfl⟩, rfl⟩ m
    refine ⟨fun _ => nofun, endsOnce_of_forall nofun, nofun, ?_⟩
    cases m <;> nofun
  · intro s a t hsound hI _ hn m
    obtain ⟨r, hr⟩ := transcribed_of_next hn
    obtain ⟨m', act⟩ := a
    rcases m'.eq_or_eq_other m with rfl | rfl
    · exact (hI m).step hsound hr
    · have hother : m'.other.other = m' := by cases m' <;> rfl
      have hr' := hr
      rw [← hother] at hr'
      exact (hI m'.other).step_other hsound hr'

/-! ### Assertions -/

/-- An assertion of the handshake: those of the packet handlers, of `SendEndOfWritePacket` and `SendEndOfReadPacket`, and
that of `InternalCheckStatus` about the end of the stream. -/
def Fault.ofHandshake (fault : Fault) : Bool :=
  fault = .assert "!writeshutdown" || fault = .assert "!readshutdown" || fault = .assert "!sentEnd" ||
    fault = .assert "EOF detected but not shutdown!"

/-- The call does not fail with an assertion of the handshake. -/
def Innocent {α : Type} (x : Except Fault α) : Prop := ∀ fault, x = .error fault → fault.ofHandshake = false

namespace Innocent

variable {α β : Type} {q : RemoteQueue}

private theorem ok (a : α) : Innocent (.ok a : Except Fault α) := nofun

private theorem error {fault : Fault} (h : fault.ofHandshake = false) : Innocent (.error fault : Except Fault α) := by
  rintro _ ⟨⟩
  exact h

private theorem bind {x : Except Fault α} {f : α → Except Fault β} (hx : Innocent x) (hf : ∀ a, Innocent (f a)) :
    Innocent (x >>= f) := by
  cases x with
  | error fault => exact error (hx fault rfl)
  | ok a => exact hf a

private theorem map {x : Except Fault α} (hx : Innocent x) (f : α → β) : Innocent (x.map f) := by
  cases x with
  | error fault => exact error (hx fault rfl)
  | ok a => exact ok (f a)

private theorem ensure {b : Bool} {text : String} (h : b = true ∨ (Fault.assert text).ofHandshake = false) :
    Innocent (ensure b text) := by
  unfold ProcessNetwork.ensure
  split_ifs with hb
  · exact ok ()
  · exact error (h.resolve_left hb)

private theorem copyChannels (src dst : ThresholdQueueBase) (n c : Nat) : Innocent (src.copyChannels dst n c) := by
  induction c with
  | zero => exact ok dst
  | succ c ih =>
    refine ih.bind fun d => ?_
    split
    · exact ok _
    · exact error (by decide)

private theorem drainInto (passes : Nat) (src dst : ThresholdQueueBase) :
    Innocent (ThresholdQueueBase.drainInto passes src dst) := by
  induction passes generalizing src dst with
  | zero =>
    rw [ThresholdQueueBase.drainInto]
    split_ifs
    · exact ok _
    · exact error (by decide)
  | succ passes ih =>
    rw [ThresholdQueueBase.drainInto]
    by_cases hc : src.count = 0
    · rw [if_pos hc]
      exact ok _
    · rw [if_neg hc]
      exact (copyChannels _ _ _ _).bind fun _ => ih _ _

private theorem grow (malloc : Malloc) (q : ThresholdQueueBase) (len mt : Nat) (copy : Bool) :
    Innocent (q.grow malloc len mt copy) := by
  rw [ThresholdQueueBase.grow]
  split_ifs
  all_goals first | exact ok _ | exact (drainInto _ _ _).bind fun _ => ok _

private theorem baseGrow (malloc : Malloc) (q : ThresholdQueue) (len mt : Nat) :
    Innocent (q.unlockedGrow malloc len mt) := by
  unfold ThresholdQueue.unlockedGrow
  split_ifs
  · exact ok q
  · exact (ensure (.inr (by decide))).bind fun _ => (ensure (.inr (by decide))).bind fun _ =>
      (ensure (.inr (by decide))).bind fun _ => (grow _ _ _ _ _).bind fun _ => ok _
  · exact (ensure (.inr (by decide))).bind fun _ => (grow _ _ _ _ _).bind fun _ => ok _
  · exact (ensure (.inr (by decide))).bind fun _ => (grow _ _ _ _ _).bind fun _ => ok _

private theorem enqueuePtr (q : ThresholdQueue) (thresh chan : Nat) : Innocent (q.internalGetRawEnqueuePtr thresh chan) := by
  unfold ThresholdQueue.internalGetRawEnqueuePtr
  split_ifs
  · refine (ensure (.inr (by decide))).bind fun _ => ?_
    split
    · exact error (by decide)
    · split
      · exact error (by decide)
      · exact ok _
  · exact ok _

private theorem dequeuePtr (q : ThresholdQueue) (thresh chan : Nat) : Innocent (q.internalGetRawDequeuePtr thresh chan) := by
  unfold ThresholdQueue.internalGetRawDequeuePtr
  split_ifs
  · refine (ensure (.inr (by decide))).bind fun _ => ?_
    split
    · exact error (by decide)
    · split
      · exact error (by decide)
      · exact ok _
  · exact ok _

private theorem internalEnqueue (q : ThresholdQueue) (n : Nat) : Innocent (q.internalEnqueue n) := by
  unfold ThresholdQueue.internalEnqueue
  split_ifs
  · split
    · exact error (by decide)
    · exact (drainInto _ _ _).bind fun _ => ok _
  · exact ok _

private theorem growTo (malloc : Malloc) (q : RemoteQueue) (len mt : Nat) : Innocent (q.growTo malloc len mt) :=
  (baseGrow malloc _ _ _).bind fun _ => ok _

private theorem finishGrow (malloc : Malloc) (q : RemoteQueue) (len mt : Nat) : Innocent (q.finishGrow malloc len mt) :=
  (growTo malloc q len mt).bind fun _ => ok _

private theorem unlockedGrow (q : RemoteQueue) (len mt : Nat) : Innocent (q.unlockedGrow k len mt) := by
  unfold RemoteQueue.unlockedGrow
  split_ifs
  · exact ok _
  · exact ok _
  · exact (finishGrow _ _ _ _).map _

private theorem channelPtrs {get : Nat → Except Fault (Option Ptr)} {text : String} (hget : ∀ chan, Innocent (get chan))
    (htext : (Fault.assert text).ofHandshake = false) (n : Nat) : Innocent (RemoteQueue.channelPtrs get text n) := by
  induction n with
  | zero => exact ok []
  | succ n ih =>
    refine ih.bind fun ptrs => (hget n).bind fun ptr => ?_
    split
    · exact error htext
    · exact ok _

private theorem beginSendEnqueue (q : RemoteQueue) (count : Nat) : Innocent (q.beginSendEnqueue count) :=
  (channelPtrs (fun chan => dequeuePtr _ count chan) (by decide) _).bind fun _ => ok _

private theorem endEnqueuePacket (q : RemoteQueue) (count : Nat) : Innocent (q.endEnqueuePacket count) :=
  (internalEnqueue _ count).bind fun _ => ok _

/-! The handlers, for a packet that the side expects. -/

variable {p : Packet} {malloc : Malloc}

private theorem beginEnqueuePacket (hp : p.type = .enqueue) (h : p.Expected q.mode q.books.peerShutdown) :
    Innocent (q.beginEnqueuePacket malloc p) := by
  have hw : q.writeshutdown = false := by
    rcases h with h | h | ⟨h, h'⟩
    · exact absurd (hp.symm.trans h) (by decide)
    · exact absurd (hp.symm.trans h) (by decide)
    · cases hm : q.mode with
      | read => rwa [RemoteQueue.peerShutdown_read hm] at h
      | write => simp [hm, hp] at h'
  refine (ensure (.inr (by decide))).bind fun _ => (ensure (.inl ?_)).bind fun _ => ?_
  · exact congrArg not hw
  · refine Innocent.bind ?_ fun base => (channelPtrs (fun chan => enqueuePtr _ _ chan) (by decide) _).bind fun _ => ok _
    unfold RemoteQueue.makeRoom
    split_ifs
    · exact baseGrow _ _ _ _
    · exact ok _

/-- The handlers with an assertion about a shutdown. -/
private theorem handler {b : Bool} {m : Mode} {text : String} (x : Except Fault RemoteQueue) (hb : b = true)
    (hx : Innocent x) :
    Innocent (do
      ProcessNetwork.ensure ((q.updateClock p).mode = m) (match m with
        | .read => "mode == READ"
        | .write => "mode == WRITE")
      ProcessNetwork.ensure b text
      x) := by
  refine (ensure (.inr ?_)).bind fun _ => (ensure (.inl hb)).bind fun _ => hx
  cases m <;> decide

private theorem firePacket (h : p.Expected q.mode q.books.peerShutdown) : Innocent (q.firePacket k p) := by
  have hread : ∀ {x : Except Fault RemoteQueue}, Innocent x → p.type = .writeBlock ∨ p.type = .endOfWrite → Innocent (do
      ProcessNetwork.ensure ((q.updateClock p).mode = .read) "mode == READ"
      ProcessNetwork.ensure (!(q.updateClock p).writeshutdown) "!writeshutdown"
      x) := by
    intro x hx ht
    refine handler (m := .read) x ?_ hx
    rcases h with h | h | ⟨h, h'⟩
    · rcases ht with ht | ht <;> exact absurd (ht.symm.trans h) (by decide)
    · rcases ht with ht | ht <;> exact absurd (ht.symm.trans h) (by decide)
    · cases hm : q.mode with
      | read =>
        rw [RemoteQueue.peerShutdown_read hm] at h
        exact congrArg not h
      | write => rcases ht with ht | ht <;> simp [hm, ht] at h'
  have hwrite : ∀ {x : Except Fault RemoteQueue}, Innocent x →
      p.type = .dequeue ∨ p.type = .readBlock ∨ p.type = .endOfRead → Innocent (do
        ProcessNetwork.ensure ((q.updateClock p).mode = .write) "mode == WRITE"
        ProcessNetwork.ensure (!(q.updateClock p).readshutdown) "!readshutdown"
        x) := by
    intro x hx ht
    refine handler (m := .write) x ?_ hx
    rcases h with h | h | ⟨h, h'⟩
    · rcases ht with ht | ht | ht <;> exact absurd (ht.symm.trans h) (by decide)
    · rcases ht with ht | ht | ht <;> exact absurd (ht.symm.trans h) (by decide)
    · cases hm : q.mode with
      | read => rcases ht with ht | ht | ht <;> simp [hm, ht] at h'
      | write =>
        rw [RemoteQueue.peerShutdown_write hm] at h
        exact congrArg not h
  unfold RemoteQueue.firePacket
  cases ht : p.type with
  | enqueue => exact error (by decide)
  | dequeue => exact hwrite (ok _) (.inl ht)
  | readBlock => exact hwrite (ok _) (.inr (.inl ht))
  | writeBlock => exact hread (ok _) (.inl ht)
  | endOfWrite => exact hread (ok _) (.inr ht)
  | endOfRead => exact hwrite (ok _) (.inr (.inr ht))
  | grow => exact growTo _ _ _ _
  | d4rTag => exact ok _
  | idReader => exact error (by decide)
  | idWriter => exact error (by decide)

end Innocent

/-- The pass does not fail with an assertion of the handshake. -/
def Pass.Innocent {σ : Type} : Pass σ → Prop
  | .fails fault => fault.ofHandshake = false
  | _ => True

private theorem Pass.Innocent.map {σ τ : Type} {p : Pass σ} (h : p.Innocent) (f : σ → τ) : (p.map f).Innocent := by
  cases p <;> exact h

namespace Side

variable {s : Side} {thresh chan : Nat} {grown : Bool}

/-- If the side has failed, then not with an assertion of the handshake. -/
def Guiltless (s : Side) : Prop := ∀ fault, s.failed = some fault → fault.ofHandshake = false

private theorem guiltless_fail {fault : Fault} (h : fault.ofHandshake = false) : (s.fail fault).Guiltless := by
  rintro _ ⟨⟩
  exact h

private theorem innocent_growPass (q : RemoteQueue) (len mt : Nat) : (Queue.growPass k q len mt).Innocent := by
  have h : Innocent (q.unlockedGrow k len mt) := .unlockedGrow q len mt
  unfold Queue.growPass
  cases hg : Queue.unlockedGrow k q len mt with
  | error fault => exact h fault hg
  | ok r => cases r <;> trivial

private theorem innocent_passOf (k : KernelBase) (q : RemoteQueue) (thresh chan : Nat) (grown : Bool) :
    (passOf k q thresh chan grown).Innocent := by
  unfold passOf
  split
  · refine Pass.Innocent.map ?_ _
    unfold Queue.dequeuePass
    cases hp : (Queue.threshold q).internalGetRawDequeuePtr thresh chan with
    | error fault => exact Innocent.dequeuePtr _ _ _ fault hp
    | ok ptr =>
      cases ptr with
      | some ptr => trivial
      | none =>
        dsimp only
        split_ifs
        · trivial
        · trivial
        · exact innocent_growPass q _ _
        · exact innocent_growPass q _ _
        · trivial
  · unfold Queue.enqueuePass
    cases hp : (Queue.threshold q).internalGetRawEnqueuePtr thresh chan with
    | error fault => exact Innocent.enqueuePtr _ _ _ fault hp
    | ok ptr =>
      cases ptr with
      | some ptr => trivial
      | none =>
        dsimp only
        split_ifs
        · trivial
        · exact (innocent_growPass q _ _).map _
        · exact (innocent_growPass q _ _).map _
        · trivial

private theorem failed_waitRemote (t : Side) {saveclock : Nat} :
    (t.waitRemote thresh chan grown saveclock).failed = t.failed := by
  unfold Side.waitRemote
  split_ifs <;> rfl

private theorem guiltless_pass (h : s.Guiltless) : (s.pass k thresh chan grown).Guiltless := by
  have hp := innocent_passOf k s.q thresh chan grown
  unfold Side.pass
  split <;> rename_i heq <;> rw [heq] at hp
  · exact h
  · exact h
  · exact h
  · exact h
  · exact h
  · unfold Guiltless Side.waitForPeer
    rw [failed_waitRemote]
    exact h
  · exact guiltless_fail hp

private theorem guiltless_nodeGrow (h : s.Guiltless) {len mt : Nat} {after : NodePc} :
    (s.nodeGrow k len mt after).Guiltless := by
  unfold Side.nodeGrow
  cases hg : s.q.unlockedGrow k len mt with
  | error fault => exact guiltless_fail (Innocent.unlockedGrow _ _ _ fault hg)
  | ok r => cases r <;> exact h

private theorem guiltless_wakes (h : s.Guiltless) : (s.wakes k).Guiltless := by
  unfold Side.wakes
  split
  · unfold Guiltless
    rw [failed_waitRemote]
    exact h
  · split_ifs
    · exact h
    · exact h
  · unfold Side.resumeGrow
    split_ifs
    · exact h
    · split
      · exact guiltless_fail (Innocent.finishGrow _ _ _ _ _ ‹_›)
      · exact h
  · exact h

private theorem guiltless_commit (h : s.Guiltless) {n : Nat} : (s.commit n).Guiltless := by
  unfold Side.commit Side.dequeue Side.enqueue
  dsimp only
  split
  · split_ifs
    · exact h
    · exact h
  · split_ifs
    · exact h
    · split
      · exact guiltless_fail (Innocent.internalEnqueue _ _ _ ‹_›)
      · exact h

/-- No step makes an assertion of the handshake fail, when the packets that arrive are expected and the stream does not
end early. -/
theorem Guiltless.next (h : s.Guiltless) {inbox : Wire} {peerEnded : Bool} {r : SideStep}
    (hexp : ∀ p rest, inbox = .header p :: rest → p.Expected s.q.mode s.q.books.peerShutdown)
    (heof : s.q.eof = true → s.q.books.peerShutdown = true)
    (hn : sideNext k s inbox peerEnded act = some r) : r.side.Guiltless := by
  cases sideMove_of_sideNext hn with
  | getRawPtr =>
    unfold Side.getRawPtr
    split
    · split_ifs <;> exact h
    · split_ifs <;> exact h
  | pass => exact guiltless_pass h
  | wakes => exact guiltless_wakes h
  | write =>
    unfold Side.write
    split
    · exact guiltless_fail (by decide)
    · exact h
  | commit => exact guiltless_commit h
  | grow => exact guiltless_nodeGrow h
  | shutdown =>
    unfold Side.shutdown
    split <;> exact h
  | detect => exact guiltless_nodeGrow h
  | check =>
    -- the end of the stream comes after a shutdown, so that `InternalCheckStatus` does not throw
    have hshut : s.q.eof = true → (s.q.readshutdown || s.q.writeshutdown) = true := by
      intro he
      have := heof he
      cases hm : s.q.mode with
      | read => rw [← RemoteQueue.peerShutdown_read hm, this, Bool.or_true]
      | write => rw [← RemoteQueue.peerShutdown_write hm, this, Bool.true_or]
    have hno : ¬(s.q.eof && !(s.q.readshutdown || s.q.writeshutdown)) = true := by
      cases he : s.q.eof with
      | false => exact Bool.false_ne_true
      | true => simp [hshut he]
    unfold Side.check
    dsimp only
    split_ifs <;> exact h
  | @readPacket p rest hin =>
    have hp := hexp p rest hin
    show (s.readPacket k p).Guiltless
    unfold Side.readPacket
    split_ifs with ht
    · split
      · exact guiltless_fail (Innocent.beginEnqueuePacket ht hp _ ‹_›)
      · exact h
    · split
      · exact guiltless_fail (Innocent.firePacket hp _ ‹_›)
      · exact h
  | readDone =>
    unfold Side.readDone
    dsimp only
    split
    · exact h
    · split_ifs <;> exact h
  | @receive p ptrs n b =>
    show (s.receive p ptrs n b).Guiltless
    unfold Side.receive
    split
    · exact guiltless_fail (by decide)
    · exact h
  | received =>
    unfold Side.received
    split
    · exact guiltless_fail (Innocent.endEnqueuePacket _ _ _ ‹_›)
    · exact h
  | sendPass =>
    rcases s.sendPass_cases with ⟨-, heq | ⟨fault, hb, heq⟩ | ⟨q, p, ptrs, -, heq⟩⟩ | ⟨-, heq⟩ <;> rw [heq]
    · exact h
    · exact guiltless_fail (Innocent.beginSendEnqueue _ _ _ hb)
    · exact h
    · exact h
  | send =>
    unfold Side.send
    split
    · exact guiltless_fail (by decide)
    · exact h
  | _ => exact h

end Side

/-- The invariants of the shutdown, as they look from one side. -/
theorem Link.Shutdown.side {s : PairState} (h : s.link.Shutdown) (m : Mode) :
    Handshake (s.side m.other).q.sentEnd (s.side m).q.books.peerShutdown (s.wire m.other) ∧
      ((s.side m).q.eof = true → (s.side m).q.books.peerShutdown = true) ∧
      ((s.side m).q.dead = true → (s.side m).q.sentEnd = true ∧ (s.side m).q.books.peerShutdown = true) := by
  cases m
  · exact ⟨h.toReader, h.eofReader, h.deadReader⟩
  · exact ⟨h.toWriter, h.eofWriter, h.deadWriter⟩

private theorem PairSound.sentBy {s : PairState} (h : PairSound k s) (m : Mode) {p : Packet} (hp : .header p ∈ s.wire m) :
    p.SentBy m (s.side .write).q.queue.numChannels := by
  cases m
  · exact h.framed.toWriter p hp
  · exact h.framed.toReader p hp

private theorem guiltless_of_reachableBy {ok : PairState → PairAct → Prop} {s : PairState}
    (h : (remotePair k arithmetic).ReachableBy ok s) (m : Mode) : (s.side m).Guiltless := by
  refine h.invariant_of (I := fun s => ∀ m, (s.side m).Guiltless)
    (fun s hs => And.intro (pairSound_of_reachableBy hs) (shutdown_of_reachableBy hs)) ?_ ?_ m
  · rintro s ⟨attr, -, -, rfl⟩ m
    exact nofun
  · intro s a t ⟨hsound, hshut⟩ hI _ hn m
    obtain ⟨r, hr, hside, hother, -, -⟩ := pairNext_cases hn
    obtain ⟨hhand, heof, -⟩ := hshut.side a.mode
    rcases a.mode.eq_or_eq_other m with rfl | rfl
    · rw [hside]
      refine (hI _).next (fun p rest hin => ?_) heof hr
      -- a packet is on its way, so the other end is not known to be shut down
      have hheard : (s.side a.mode).q.books.peerShutdown = false := by
        cases hheard : (s.side a.mode).q.books.peerShutdown with
        | false => rfl
        | true => simp [hhand.nil_of_heard hheard] at hin
      rw [hsound.mode, hheard]
      exact expected_of_sentBy _ (hsound.sentBy _ (hin ▸ List.mem_cons_self))
    · rw [hother]
      exact hI _

/-! ### Rest -/

/-- The action thread sleeps and nothing has woken it, or it has ended. -/
def Side.AtRest (s : Side) : Prop := s.action = .idle ∧ s.q.pendingAction = false ∨ s.action = .exited

/-- A side at rest has nothing left to do. -/
theorem Side.Diligent.atRest {s : Side} (h : s.Diligent) (hs : s.AtRest) : s.q.dead = true ∨ s.q.duty.Rested := by
  rcases hs with ⟨h1, h2⟩ | h1
  · exact .inr (h.idle h1 h2)
  · exact .inl (h.exited h1)

/-- When everything has come to rest, a side whose peer has announced its end is dead, and has announced its own. -/
theorem dead_of_sentEnd {s : PairState} (h : (remotePair k arithmetic).Reachable s) {m : Mode} (hrest : (s.side m).AtRest)
    (hwire : s.wire m.other = []) (hsent : (s.side m.other).q.sentEnd = true) :
    (s.side m).q.dead = true ∧ (s.side m).q.sentEnd = true := by
  obtain ⟨hhand, -, hdead⟩ := (shutdown_of_reachableBy h).side m
  have hsound := pairSound_of_reachableBy h
  rw [hwire] at hhand
  have hheard := hhand.heard_of_nil hsent
  have hd : (s.side m).q.dead = true := by
    rcases (diligent_of_reachableBy h m).atRest hrest with hd | hr
    · exact hd
    · refine hr.closes ?_
      rw [← hheard]
      unfold Duty.peerShut RemoteQueue.books
      rfl
  exact ⟨hd, (hdead hd).1⟩

end ProcessNetwork
