import ProcessNetwork.RemoteLink

/-!
# Transcripts

A run of the pair together with a transcript of it: the packets each side has sent, those of them that the other side has
processed, and how many had been sent when the node of a side last began to wait.  The transcript restricts nothing
(`Machine.ReachableBy.exists_recorded`), so what is proved of all transcripts is proved of all runs.
-/

namespace ProcessNetwork

open Framing (headers headers_append)

structure Transcript where
  /-- the packets a side has sent -/
  sent : Mode → List Packet
  /-- the packets of a side that the other one has processed -/
  processed : Mode → List Packet
  /-- how many packets a side had sent when its node last called `WaitForData` or `WaitForFreespace` -/
  called : Mode → Nat

/-- What a step takes from the inbox. -/
def SideStep.taken (inbox : Wire) (r : SideStep) : Wire := inbox.take (inbox.length - r.rest.length)

/-- The node calls `WaitForData` or `WaitForFreespace` in this step. -/
def Side.callsWait (k : KernelBase) (s : Side) : SideAct → Bool
  | .pass =>
    match s.node with
    | .loop thresh chan grown =>
      match Side.passOf k s.q thresh chan grown with
      | .waits _ => true
      | _ => false
    | _ => false
  | _ => false

namespace Transcript

def start : Transcript := ⟨fun _ => [], fun _ => [], fun _ => 0⟩

/-- The transcript after a step. -/
def note (k : KernelBase) (s : PairState) (a : PairAct) (h : Transcript) : Transcript :=
  match sideNext k (s.side a.mode) (s.wire a.mode.other) (s.side a.mode.other).q.sentEnd a.act with
  | none => h
  | some r =>
    { sent := Function.update h.sent a.mode (h.sent a.mode ++ headers r.sent)
      processed := Function.update h.processed a.mode.other
        (h.processed a.mode.other ++ headers (r.taken (s.wire a.mode.other)))
      called :=
        if (s.side a.mode).callsWait k a.act then Function.update h.called a.mode (h.sent a.mode).length else h.called }

end Transcript

/-- The pair with a transcript of its run. -/
def transcribedPair (k : KernelBase) (arithmetic : Arithmetic := .exact) : Machine (PairState × Transcript) PairAct :=
  (remotePair k arithmetic).recorded (Transcript.note k) .start

/-- What a step from `s` to `t` by the side `m` does to the transcript. -/
structure Transcribed (k : KernelBase) (s t : PairState × Transcript) (m : Mode) (act : SideAct) (r : SideStep) : Prop where
  next : sideNext k (s.1.side m) (s.1.wire m.other) (s.1.side m.other).q.sentEnd act = some r
  side : t.1.side m = r.side
  side_other : t.1.side m.other = s.1.side m.other
  wire : t.1.wire m = s.1.wire m ++ r.sent
  wire_other : t.1.wire m.other = r.rest
  sent : t.2.sent m = s.2.sent m ++ headers r.sent
  sent_other : t.2.sent m.other = s.2.sent m.other
  processed : t.2.processed m = s.2.processed m
  processed_other : t.2.processed m.other = s.2.processed m.other ++ headers (r.taken (s.1.wire m.other))
  called : t.2.called m = if (s.1.side m).callsWait k act then (s.2.sent m).length else s.2.called m
  called_other : t.2.called m.other = s.2.called m.other

variable {k : KernelBase} {arithmetic : Arithmetic} {s t : PairState × Transcript} {a : PairAct}

private theorem Mode.other_ne (m : Mode) : m.other ≠ m := by cases m <;> decide

theorem transcribed_of_next (h : (transcribedPair k arithmetic).next s a = some t) :
    ∃ r, Transcribed k s t a.mode a.act r := by
  obtain ⟨hn, hnote⟩ := Machine.recorded_next h
  obtain ⟨r, hr, h1, h2, h3, h4⟩ := pairNext_cases hn
  have hm := a.mode.other_ne
  rw [Transcript.note, hr] at hnote
  dsimp only at hnote
  refine ⟨r, hr, h1, h2, h4, h3, ?_, ?_, ?_, ?_, ?_, ?_⟩ <;> rw [hnote]
  · exact Function.update_self _ _ _
  · exact Function.update_of_ne hm _ _
  · exact Function.update_of_ne hm.symm _ _
  · exact Function.update_self _ _ _
  · dsimp only
    split_ifs
    · exact Function.update_self _ _ _
    · rfl
  · dsimp only
    split_ifs
    · exact Function.update_of_ne hm _ _
    · rfl

/-- A step takes a part of the front of its inbox. -/
theorem SideStep.taken_append {s : Side} {inbox : Wire} {peerEnded : Bool} {act : SideAct} {r : SideStep}
    (h : sideNext k s inbox peerEnded act = some r) : r.taken inbox ++ r.rest = inbox := by
  have hkeep : ∀ t ps, (⟨t, inbox, ps⟩ : SideStep).taken inbox ++ inbox = inbox := by
    intro t ps
    rw [SideStep.taken, Nat.sub_self, List.take_zero, List.nil_append]
  have hone : ∀ {x : Item Packet Byte} {rest : Wire} {t : Side} {P : Prop} [Decidable P], inbox = x :: rest →
      (⟨t, if P then rest else inbox, []⟩ : SideStep).taken inbox ++ (if P then rest else inbox) = inbox := by
    rintro x rest t P _ rfl
    split_ifs
    · simp [SideStep.taken]
    · simp [SideStep.taken]
  cases sideMove_of_sideNext h with
  | readPacket hin => exact hone hin
  | receive hin => exact hone hin
  | _ => exact hkeep _ _

/-- What has been sent is what has been processed and what is on the way. -/
theorem sent_eq (h : (transcribedPair k arithmetic).Reachable s) (m : Mode) :
    s.2.sent m = s.2.processed m ++ headers (s.1.wire m) := by
  refine h.invariant (I := fun s => ∀ m, s.2.sent m = s.2.processed m ++ headers (s.1.wire m)) ?_ ?_ m
  · rintro ⟨s, h⟩ ⟨⟨attr, -, -, rfl⟩, rfl⟩ m
    rfl
  · intro s a t hI _ hn m
    obtain ⟨r, hr⟩ := transcribed_of_next hn
    rcases a.mode.eq_or_eq_other m with rfl | rfl
    · rw [hr.sent, hr.processed, hr.wire, headers_append, hI, List.append_assoc]
    · rw [hr.sent_other, hr.processed_other, hr.wire_other, List.append_assoc, ← headers_append,
        SideStep.taken_append hr.next, hI]

theorem reachable_of_transcribed (h : (transcribedPair k arithmetic).Reachable s) :
    (remotePair k arithmetic).Reachable s.1 :=
  Machine.ReachableBy.of_recorded h

end ProcessNetwork
