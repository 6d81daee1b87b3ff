import Trtp.Lib.Run
import Trtp.Receiver.Step

/-!
# The receiver's loop as a whole (`read_write_loop_receiver.c:78-214`)

What a turn can do, by the branches of the code, and the loop as a run of turns.

* `receive_of_rejected`, `receive_closing`, `receive_truncated`, `receive_accepted`: the turn by the
  decoder's verdict; `accept_inOrder`, `accept_duplicate`, `accept_stored`, `accept_outOfSequence`:
  an accepted packet by its number.
* `drain_inv`: what one round of the drain loop keeps, the loop keeps.
* `Session.turn`: one turn with the replies it sends, not possible once the loop was left.
-/

namespace Trtp

open Trtp.Run

/-! ## The drain loop -/

/-- A round of the drain loop that found a packet. -/
def Receiver.drained (r : Receiver) (packet : Pkt) (rest : Stack) : Receiver :=
  { r with
    output := r.output ++ [written packet]
    expectedSeqnum := incrementSeqnum r.expectedSeqnum
    receivingStack := rest
    window := windowLeft rest }

/-- **What one round keeps, the drain loop keeps.** -/
theorem drain_inv {P : Receiver → Prop}
    (hkeep : ∀ r packet rest, P r →
      stackRemove r.receivingStack r.expectedSeqnum = (some packet, rest) →
      P (r.drained packet rest))
    {fuel : ℕ} {r : Receiver} {ts : UInt32} (h : P r) : P (drain fuel r ts).1 := by
  induction fuel generalizing r ts with
  | zero => exact h
  | succ fuel ih =>
    cases hrem : stackRemove r.receivingStack r.expectedSeqnum with
    | mk packet rest =>
      cases packet with
      | none =>
        simp only [drain, hrem]
        exact h
      | some packet =>
        simp only [drain, hrem]
        exact ih (hkeep r packet rest h hrem)

/-- The loop stops at a number that is not in the stack. -/
theorem drain_absent (r : Receiver) (ts : UInt32) :
    ∀ node ∈ (drain r.receivingStack.length r ts).1.receivingStack,
      node.seqnum ≠ (drain r.receivingStack.length r ts).1.expectedSeqnum := by
  have hnone : (stackRemove (drain r.receivingStack.length r ts).1.receivingStack
      (drain r.receivingStack.length r ts).1.expectedSeqnum).1 = none :=
    (drain_fuel (le_refl _)).2
  rcases stackRemove_cases (drain r.receivingStack.length r ts).1.receivingStack
    (drain r.receivingStack.length r ts).1.expectedSeqnum with
    ⟨habsent, -⟩ | ⟨front, node, back, -, -, -, hrem⟩
  · exact habsent
  · rw [hrem] at hnone
    exact absurd hnone (by simp)

/-! ## The turn by its branches -/

/-- A packet in order, written. -/
def Receiver.deliver (r : Receiver) (packet : Pkt) : Receiver :=
  { r with
    output := r.output ++ [written packet]
    expectedSeqnum := incrementSeqnum r.expectedSeqnum }

/-- A packet put into the stack. -/
def Receiver.store (r : Receiver) (packet : Pkt) : Receiver :=
  { r with
    receivingStack := stackEnqueue r.receivingStack packet
    window := windowLeft (stackEnqueue r.receivingStack packet) }

/-- The test of the closing branch. -/
def Closing (r : Receiver) (packet : Pkt) : Prop :=
  packet.type = .data ∧ packet.length = 0 ∧ pktGetTr packet = 0 ∧
    packet.seqnum = r.expectedSeqnum

section Turn

variable [Zlib] {r : Receiver} {packet : Pkt} {ts : UInt32}

/-- The ACK of a receiver's state. -/
def ackOf (r : Receiver) (ts : UInt32) : List UInt8 :=
  wire (replyPkt r.window .ack ts r.expectedSeqnum)

theorem accept_inOrder (h : packet.seqnum = r.expectedSeqnum) :
    accept r packet ts =
      ((drain r.receivingStack.length (r.deliver packet) ts).1,
        [ackOf (drain r.receivingStack.length (r.deliver packet) ts).1
          (drain r.receivingStack.length (r.deliver packet) ts).2]) := by
  unfold accept
  rw [if_pos h]
  exact Prod.ext rfl (sendReply_eq _ _ _ (by simp))

theorem accept_duplicate (hne : packet.seqnum ≠ r.expectedSeqnum)
    (hwin : isExpected r.expectedSeqnum packet.seqnum)
    (hin : isInStack r.receivingStack packet.seqnum = true) : accept r packet ts = (r, []) := by
  unfold accept
  rw [if_neg hne, if_pos hwin, if_pos hin]

theorem accept_stored (hne : packet.seqnum ≠ r.expectedSeqnum)
    (hwin : isExpected r.expectedSeqnum packet.seqnum)
    (hin : isInStack r.receivingStack packet.seqnum ≠ true) :
    accept r packet ts = (r.store packet, [ackOf (r.store packet) ts]) := by
  unfold accept
  rw [if_neg hne, if_pos hwin, if_neg hin]
  simp only [Receiver.store, ackOf, sendReply_eq _ ts _ (show PType.ack ≠ .unset by simp)]

theorem accept_outOfSequence (hne : packet.seqnum ≠ r.expectedSeqnum)
    (hwin : ¬ isExpected r.expectedSeqnum packet.seqnum) :
    accept r packet ts = (r, [ackOf r ts]) := by
  unfold accept
  rw [if_neg hne, if_neg hwin]
  exact Prod.ext rfl (sendReply_eq _ _ _ (by simp))

/-- `pkt_decode` accepts the datagram in the cleared buffer, as this packet. -/
def Accepted (datagram : List UInt8) (packet : Pkt) : Prop :=
  pktDecode (readInto cleared 528 datagram) (min 528 datagram.length) pktNew = (.pktOk, packet)

variable {datagram : List UInt8}

theorem accepted_or_rejected (datagram : List UInt8) :
    (∃ packet, Accepted datagram packet) ∨
      (pktDecode (readInto cleared 528 datagram) (min 528 datagram.length) pktNew).1 ≠ .pktOk := by
  by_cases h :
      (pktDecode (readInto cleared 528 datagram) (min 528 datagram.length) pktNew).1 = .pktOk
  · exact Or.inl ⟨_, Prod.ext h rfl⟩
  · exact Or.inr h

theorem Accepted.unique {packet' : Pkt} (h : Accepted datagram packet)
    (h' : Accepted datagram packet') : packet = packet' :=
  congrArg Prod.snd (h.symm.trans h')

/-- What holds of the accepted packet can be evaluated. -/
instance Accepted.decidableForall (datagram : List UInt8) (P : Pkt → Prop) [DecidablePred P] :
    Decidable (∀ packet, Accepted datagram packet → P packet) :=
  decidable_of_iff
    ((pktDecode (readInto cleared 528 datagram) (min 528 datagram.length) pktNew).1 = .pktOk →
      P (pktDecode (readInto cleared 528 datagram) (min 528 datagram.length) pktNew).2)
    ⟨fun h _ hacc => by rw [Accepted] at hacc; rw [hacc] at h; exact h rfl,
      fun h hok => h _ (Prod.ext hok rfl)⟩

/-- The packet the decoder makes of the segment of `pkt`. -/
def received (pkt : Pkt) : Pkt := { stamped pkt with payload := some pkt.bytes }

theorem accepted_wire {pkt : Pkt} (h : Sendable pkt) : Accepted (wire pkt) (received pkt) := by
  have hle := length_wire_le h
  rw [Accepted, readInto_cleared hle, Nat.min_eq_right hle]
  exact pktDecode_wire_zeros h pktNew

/-- **What an accepted packet is**: a truncated one is DATA, another one carries its payload. -/
theorem Accepted.spec (h : Accepted datagram packet) :
    (packet.type ≠ .data → packet.tr = 0) ∧ (packet.tr = 0 → written packet = packet.bytes) := by
  obtain ⟨hL, -, hok, rfl⟩ := (pktDecode_ok_iff _ (le_len_of_ok h) _ _).mp h
  unfold maxPayloadSize at hL
  refine ⟨fun htype => ?_, fun htr => ?_⟩
  · by_contra htr
    unfold typeStatus at hok
    split at hok
    · exact absurd hok (by simp)
    · rw [if_pos ⟨htype, htr⟩] at hok
      exact absurd hok (by simp)
  · have hread := length_readInto cleared (le_refl 528) datagram
    have hsize : (slice (readInto cleared 528 datagram) 12
        (lengthField (readInto cleared 528 datagram)).toNat).length =
        (lengthField (readInto cleared 528 datagram)).toNat := length_slice (by omega)
    unfold written pktGetPayload
    rw [if_neg (not_not.mpr htr)]
    exact List.take_of_length_le hsize.le

theorem receive_closing (h : Accepted datagram packet) (hc : Closing r packet) (dangling : Pkt) :
    receive dangling r datagram =
      ({ r with expectedSeqnum := incrementSeqnum r.expectedSeqnum, closed := true },
        List.replicate 5 (wire (replyPkt r.window .ack packet.timestamp
          (incrementSeqnum r.expectedSeqnum)))) := by
  unfold Accepted at h
  unfold Closing at hc
  simp only [receive, maxPayloadSize, h]
  rw [if_pos hc, sendReply_eq _ _ _ (by simp)]
  rfl

/-- After the NACK, the turn goes on with the freed packet. -/
theorem receive_truncated (h : Accepted datagram packet) (htr : packet.tr = 1) (dangling : Pkt) :
    receive dangling r datagram =
      ((accept r dangling packet.timestamp).1,
        wire (replyPkt r.window .nack packet.timestamp packet.seqnum) ::
          (accept r dangling packet.timestamp).2) := by
  have hget : pktGetTr packet = 1 := by
    rw [pktGetTr, htr]
    rfl
  unfold Accepted at h
  simp only [receive, maxPayloadSize, h]
  rw [if_neg (by rw [hget]; simp), if_pos hget, sendReply_eq _ _ _ (by simp)]
  rfl

theorem receive_accepted (h : Accepted datagram packet) (htr : packet.tr = 0)
    (hc : ¬ Closing r packet) (dangling : Pkt) :
    receive dangling r datagram = accept r packet packet.timestamp := by
  have hget : pktGetTr packet = 0 := by
    rw [pktGetTr, htr]
    rfl
  unfold Accepted at h
  unfold Closing at hc
  simp only [receive, maxPayloadSize, h]
  rw [if_neg hc, if_neg (by rw [hget]; decide)]

end Turn

/-! ## Runs -/

/-- The receiver with everything it has sent. -/
structure Session where
  receiver : Receiver
  sent : List (List UInt8)

/-- The loop is entered. -/
def Session.start : Session := { receiver := Receiver.start, sent := [] }

/-- A datagram to be read, with what the freed memory holds if it is truncated. -/
structure Incoming where
  datagram : List UInt8
  dangling : Pkt

section Runs

variable [Zlib]

/-- One turn of the loop; none after its `break`. -/
def Session.turn (s : Session) (i : Incoming) : Option Session :=
  if s.receiver.closed then none
  else
    some
      { receiver := (receive i.dangling s.receiver i.datagram).1
        sent := s.sent ++ (receive i.dangling s.receiver i.datagram).2 }

theorem turn_some {s s' : Session} {i : Incoming} (h : s.turn i = some s') :
    s.receiver.closed = false ∧ s'.receiver = (receive i.dangling s.receiver i.datagram).1 ∧
      s'.sent = s.sent ++ (receive i.dangling s.receiver i.datagram).2 := by
  unfold Session.turn at h
  split at h
  · exact absurd h (by simp)
  · rename_i hopen
    rw [Option.some.injEq] at h
    exact ⟨Bool.eq_false_iff.mpr hopen, h ▸ rfl, h ▸ rfl⟩

end Runs

/-! ## Packets for the runs on fixed inputs -/

/-- A DATA packet with its number as its payload. -/
def numberedPacket (i : ℕ) : Pkt :=
  { pktNew with
    type := .data, seqnum := UInt8.ofNat i, length := 1, payload := some [UInt8.ofNat i] }

theorem sendable_numberedPacket (i : ℕ) : Sendable (numberedPacket i) :=
  ⟨by simp [numberedPacket], rfl, rfl, (by decide : (1 : UInt16).toNat ≤ maxPayloadSize)⟩

/-- Its segment arrives. -/
def incoming [Zlib] (pkt : Pkt) : Incoming := { datagram := wire pkt, dangling := pktNew }

end Trtp
