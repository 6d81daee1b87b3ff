import Trtp.Sender.File

/-!
# The sender on a stack of consecutive packets

With packets `a`, ..., `N - 1` in the stack, a number is a position (`Holds`), and the tests of the
sender are about positions.

* `SentAt stack i`: the packet at position `i` was transmitted, its timestamp is not 0.
* `sendNext_sent`: what a transmission sends and what it leaves.
* `acceptsAck_iff`, `removeAcked_eq`: **an ACK is let through when it carries the number of the
  total, or the packet one position in front of its number was transmitted**; then the packets in
  front of that position go.
* `isTotal_imp`: `totalPacketsToSend % 256` is the number behind the last packet.
-/

namespace Trtp

open Trtp.Bytes

variable {file : ℕ → List UInt8} {N a : ℕ} {stack : Stack}

/-- The packet at a position was transmitted. -/
def SentAt (stack : Stack) (i : ℕ) : Prop := ∃ node ∈ stack[i]?, node.pkt.timestamp ≠ 0

theorem SentAt.lt {i : ℕ} (h : SentAt stack i) : i < stack.length := by
  obtain ⟨node, hnode, -⟩ := h
  exact (List.getElem?_eq_some_iff.mp hnode).1

theorem sentAt_drop {k i : ℕ} : SentAt (stack.drop k) i ↔ SentAt stack (k + i) := by
  unfold SentAt
  rw [List.getElem?_drop]

theorem not_sentAt_of_fresh (h : ∀ node ∈ stack, node.pkt.timestamp = 0) (i : ℕ) :
    ¬ SentAt stack i := by
  rintro ⟨node, hnode, hts⟩
  exact hts (h node (List.mem_of_getElem? hnode))

theorem Holds.numbered_set (h : Holds file N a stack) (seqnum : UInt8) (pkt : Pkt) (i : ℕ) :
    (stackSetPkt stack seqnum pkt)[i]? =
      if i = offset (UInt8.ofNat a) seqnum then
        stack[i]?.map fun node => { node with pkt := pkt }
      else stack[i]? := by
  rw [stackSetPkt_numbered h.numbered, List.getElem?_modify]
  by_cases hi : i = offset (UInt8.ofNat a) seqnum
  · rw [if_pos hi]
    cases stack[i]? with
    | none => rfl
    | some node => simp [hi]
  · rw [if_neg hi]
    cases stack[i]? with
    | none => rfl
    | some node => simp [Ne.symm hi]

theorem sentAt_set (h : Holds file N a stack) {seqnum : UInt8} {pkt old : Pkt}
    (hget : stackGetPkt stack seqnum = some old) (hts : pkt.timestamp ≠ 0) (i : ℕ) :
    SentAt (stackSetPkt stack seqnum pkt) i ↔
      i = offset (UInt8.ofNat a) seqnum ∨ SentAt stack i := by
  obtain ⟨node, hnode, -, -⟩ := h.get hget
  unfold SentAt
  rw [h.numbered_set]
  by_cases hi : i = offset (UInt8.ofNat a) seqnum
  · rw [if_pos hi, hi, hnode]
    constructor
    · exact fun _ => Or.inl rfl
    · exact fun _ => ⟨{ node with pkt := pkt }, rfl, hts⟩
  · rw [if_neg hi]
    constructor
    · exact Or.inr
    · exact fun hc => hc.resolve_left hi

/-! ## ACKs -/

/-- A size cut to `int` is a number of the same remainder. -/
theorem bmod_emod_256 (n : ℕ) : (Int.bmod n (2 ^ 32)) % 256 = (n : ℤ) % 256 := by
  have hb : (Int.bmod n (2 ^ 32)) % (2 ^ 32 : ℕ) = (n : ℤ) % (2 ^ 32 : ℕ) := Int.bmod_emod ..
  have hdvd : (256 : ℤ) ∣ ((2 ^ 32 : ℕ) : ℤ) := by decide
  rw [← Int.emod_emod_of_dvd _ hdvd, hb, Int.emod_emod_of_dvd _ hdvd]

/-- `totalPacketsToSend % 256` is no other number than that of the total. -/
theorem isTotal_imp {n : ℕ} {seqnum : UInt8} (h : isTotal (Int.bmod n (2 ^ 32)) seqnum) :
    seqnum = UInt8.ofNat n := by
  unfold isTotal at h
  have hmod := bmod_emod_256 n
  have hlt := seqnum.toNat_lt
  have hnum : (seqnum.toNat : ℤ) = (n : ℤ) % 256 := by
    rcases le_or_gt 0 (Int.bmod n (2 ^ 32)) with hpos | hneg
    · rw [h, ← hmod, Int.tmod_eq_emod_of_nonneg hpos]
    · -- a negative remainder is a number only when it is 0
      have hle : (Int.bmod n (2 ^ 32)).tmod 256 ≤ 0 := by
        have hneg' := Int.tmod_nonneg (b := 256) (a := -Int.bmod n (2 ^ 32)) (by omega)
        rw [Int.neg_tmod] at hneg'
        omega
      have hzero : (Int.bmod n (2 ^ 32)).tmod 256 = 0 := by omega
      have hdvd : (256 : ℤ) ∣ Int.bmod n (2 ^ 32) := Int.dvd_of_tmod_eq_zero hzero
      have := Int.emod_eq_zero_of_dvd hdvd
      omega
  apply UInt8.toNat_inj.mp
  rw [UInt8.toNat_ofNat']
  omega

theorem acceptsAck_iff (h : Holds file N a stack) (total : ℤ) (seqnum : UInt8) :
    acceptsAck total stack seqnum ↔
      isTotal total seqnum ∨ SentAt stack (offset (UInt8.ofNat a) (seqnum - 1)) := by
  unfold acceptsAck SentAt
  rw [stackGetPkt_numbered h.numbered]
  refine or_congr_right ?_
  cases stack[offset (UInt8.ofNat a) (seqnum - 1)]? with
  | none => simp
  | some node => simp

/-- **What an ACK removes**: the packets in front of its number, when it is let through. -/
theorem removeAcked_eq (h : Holds file N a stack) (total : ℤ) (seqnum : UInt8) :
    removeAcked total stack seqnum =
      if acceptsAck total stack seqnum then stack.drop (offset (UInt8.ofNat a) seqnum)
      else stack := by
  rw [removeAcked, stackRemoveAcked_numbered h.numbered]

/-- The stack stays one of consecutive packets. -/
theorem Holds.removeAcked (h : Holds file N a stack) (total : ℤ) (seqnum : UInt8) :
    ∃ k ≤ stack.length, removeAcked total stack seqnum = stack.drop k ∧
      Holds file N (a + k) (stack.drop k) ∧
      (k = 0 ∨ acceptsAck total stack seqnum) ∧
      (acceptsAck total stack seqnum → k = min (offset (UInt8.ofNat a) seqnum) stack.length) := by
  rw [removeAcked_eq h]
  by_cases hacc : acceptsAck total stack seqnum
  · rw [if_pos hacc]
    refine ⟨min (offset (UInt8.ofNat a) seqnum) stack.length, Nat.min_le_right _ _, ?_,
      h.drop (Nat.min_le_right _ _), Or.inr hacc, fun _ => rfl⟩
    rcases Nat.le_total (offset (UInt8.ofNat a) seqnum) stack.length with hle | hle
    · rw [Nat.min_eq_left hle]
    · rw [Nat.min_eq_right hle, List.drop_length, List.drop_eq_nil_of_le hle]
  · rw [if_neg hacc]
    exact ⟨0, Nat.zero_le _, rfl, h.drop (Nat.zero_le _), Or.inl rfl, fun hc => absurd hc hacc⟩

theorem processAck_code (s : Sender) (packet : Pkt) :
    (processAck s packet).2 = 0 ∨ (processAck s packet).2 = 1 := by
  rw [processAck_eq]
  simp only
  split
  · exact Or.inr rfl
  · exact Or.inl rfl

theorem processNack_code (s : Sender) (packet : Pkt) :
    (processNack s packet).2 = 0 ∨ (processNack s packet).2 = 1 := by
  rw [processNack_eq]
  simp only
  split
  · exact Or.inr rfl
  · exact Or.inl rfl

/-- With nothing to read, the stack and the last ACK stay. -/
theorem wakeUp_keeps (clock : ℕ → ℤ) (s : Sender) :
    (wakeUp clock s).sendingStack = s.sendingStack ∧
      (wakeUp clock s).lastSeqnumAcked = s.lastSeqnumAcked := by
  obtain ⟨seqnumToSend, hasRTed, count, pc, hw⟩ := wakeUp_eq clock s
  rw [hw]
  exact ⟨rfl, rfl⟩

/-! ## Transmissions -/

theorem isData_stampPkt {j : ℕ} {pkt : Pkt} (h : IsData file j pkt) (now : UInt32) :
    IsData file j (stampPkt now pkt) :=
  ⟨⟨h.sendable.type_ne, h.sendable.tr_eq, h.sendable.length_eq, h.sendable.length_le⟩,
    h.type_eq, h.seqnum_eq, h.bytes_eq⟩

@[simp] theorem advance_sendingStack (s : Sender) : s.advance.sendingStack = s.sendingStack := by
  unfold Sender.advance
  split <;> rfl

@[simp] theorem advance_lastSeqnumAcked (s : Sender) :
    s.advance.lastSeqnumAcked = s.lastSeqnumAcked := by
  unfold Sender.advance
  split <;> rfl

@[simp] theorem advance_totalPacketsToSend (s : Sender) :
    s.advance.totalPacketsToSend = s.totalPacketsToSend := by
  unfold Sender.advance
  split <;> rfl

@[simp] theorem advance_totalPacketsSent (s : Sender) :
    s.advance.totalPacketsSent = s.totalPacketsSent := by
  unfold Sender.advance
  split <;> rfl

@[simp] theorem advance_lastpacketsSentCount (s : Sender) :
    s.advance.lastpacketsSentCount = s.lastpacketsSentCount := by
  unfold Sender.advance
  split <;> rfl

/-- Behind a transmission nothing is asked for, and the next number is restored. -/
theorem advance_restores (s : Sender) :
    s.advance.flagged = false ∧
      s.advance.seqnumToSend = incrementSeqnum s.advance.lastEncodedSeqnum := by
  unfold Sender.advance
  split
  · exact ⟨rfl, rfl⟩
  · rename_i hflag
    exact ⟨Bool.eq_false_iff.mpr hflag, rfl⟩

section Transmit

variable [Zlib]

theorem isData_stamped {j : ℕ} {pkt : Pkt} (h : IsData file j pkt) : IsData file j (stamped pkt) :=
  ⟨⟨h.sendable.type_ne, h.sendable.tr_eq, h.sendable.length_eq, h.sendable.length_le⟩,
    h.type_eq, h.seqnum_eq, h.bytes_eq⟩

theorem sendNext_eq {s : Sender} {pkt : Pkt} {now : UInt32} (h : Sendable (stampPkt now pkt)) :
    sendNext now s pkt =
      (({ s with
          totalPacketsSent :=
            if pkt.timestamp = 0 then s.totalPacketsSent + 1 else s.totalPacketsSent
          sendingStack :=
            stackSetPkt s.sendingStack s.seqnumToSend (stamped (stampPkt now pkt))
          buf := wire (stampPkt now pkt) ++ s.buf.drop (wire (stampPkt now pkt)).length } :
          Sender).advance, wire (stampPkt now pkt)) := by
  have hcap : (wire (stampPkt now pkt)).length ≤ 16 + maxPayloadSize := length_wire_le h
  simp only [sendNext, pktEncode_eq h s.buf hcap, Encoded.segment, List.take_left]

/-- **What is sent is the segment of the packet at `seqnumToSend`, and it now counts as sent.** -/
theorem sendNext_sent {s : Sender} {pkt : Pkt} {now : UInt32}
    (h : Holds file N a s.sendingStack) (hnow : now ≠ 0)
    (hget : stackGetPkt s.sendingStack s.seqnumToSend = some pkt) :
    IsData file (a + offset (UInt8.ofNat a) s.seqnumToSend) (stampPkt now pkt) ∧
      (sendNext now s pkt).2 = wire (stampPkt now pkt) ∧
      Holds file N a (sendNext now s pkt).1.sendingStack ∧
      (sendNext now s pkt).1.sendingStack.length = s.sendingStack.length ∧
      ∀ i, SentAt (sendNext now s pkt).1.sendingStack i ↔
        i = offset (UInt8.ofNat a) s.seqnumToSend ∨ SentAt s.sendingStack i := by
  obtain ⟨-, -, -, hdata⟩ := h.get hget
  have hstamp := isData_stampPkt hdata now
  have hts : (stamped (stampPkt now pkt)).timestamp ≠ 0 := hnow
  rw [sendNext_eq hstamp.sendable]
  simp only [advance_sendingStack]
  refine ⟨hstamp, trivial, h.set (isData_stamped hstamp), ?_, sentAt_set h hget hts⟩
  rw [stackSetPkt_numbered h.numbered, List.length_modify]

@[simp] theorem sendNext_lastSeqnumAcked (now : UInt32) (s : Sender) (pkt : Pkt) :
    (sendNext now s pkt).1.lastSeqnumAcked = s.lastSeqnumAcked := by
  simp [sendNext]

@[simp] theorem sendNext_totalPacketsToSend (now : UInt32) (s : Sender) (pkt : Pkt) :
    (sendNext now s pkt).1.totalPacketsToSend = s.totalPacketsToSend := by
  simp [sendNext]

@[simp] theorem sendNext_lastpacketsSentCount (now : UInt32) (s : Sender) (pkt : Pkt) :
    (sendNext now s pkt).1.lastpacketsSentCount = s.lastpacketsSentCount := by
  simp [sendNext]

/-! ## Replies -/

/-- What `process_response` can do with a datagram. -/
theorem processResponse_cases (s : Sender) (datagram : List UInt8) (junk : Buffer) :
    (∃ packet, replyOf junk datagram = (.pktOk, packet) ∧ packet.type = .ack ∧
      processResponse s (some datagram) junk = processAck s packet) ∨
    (∃ packet, replyOf junk datagram = (.pktOk, packet) ∧ packet.type = .nack ∧
      processResponse s (some datagram) junk = processNack s packet) ∨
    (∃ code, code ≠ 1 ∧ code ≠ -2 ∧ code ≠ -3 ∧
      processResponse s (some datagram) junk = (s, code)) := by
  by_cases hread : 0 < min 12 datagram.length
  · cases hrep : replyOf junk datagram with
    | mk status packet =>
      have hrep' := hrep
      unfold replyOf at hrep'
      simp only [processResponse, if_pos hread, hrep']
      cases status with
      | pktOk =>
        by_cases hack : packet.type = .ack
        · exact Or.inl ⟨packet, rfl, hack, if_pos hack⟩
        · by_cases hnack : packet.type = .nack
          · exact Or.inr (Or.inl ⟨packet, rfl, hnack, (if_neg hack).trans (if_pos hnack)⟩)
          · exact Or.inr (Or.inr ⟨-1, by decide, by decide, by decide,
              (if_neg hack).trans (if_neg hnack)⟩)
      | _ => exact Or.inr (Or.inr ⟨-1, by decide, by decide, by decide, rfl⟩)
  · refine Or.inr (Or.inr ⟨0, by decide, by decide, by decide, ?_⟩)
    simp only [processResponse, if_neg hread]

/-- A reply that was sent is processed by its type. -/
theorem processResponse_wire (s : Sender) (junk : Buffer) {type : PType} (window : UInt8)
    (ts : UInt32) (seqnum : UInt8) (h : type = .ack ∨ type = .nack) :
    ∃ packet, packet.seqnum = seqnum ∧
      pktGetWindow packet = pktGetWindow (replyPkt window type ts seqnum) ∧
      processResponse s (some (wire (replyPkt window type ts seqnum))) junk =
        if type = .ack then processAck s packet else processNack s packet := by
  have hne : type ≠ .unset := by
    rcases h with rfl | rfl <;> decide
  obtain ⟨packet, hrep, htype, hseq, hwin⟩ := replyOf_wire junk type window ts seqnum hne
  refine ⟨packet, hseq, hwin, ?_⟩
  have hread : 0 < min 12 (wire (replyPkt window type ts seqnum)).length := by
    rw [length_wire]
    omega
  unfold replyOf at hrep
  simp only [processResponse, if_pos hread, hrep, htype]
  rcases h with rfl | rfl
  · rw [if_pos rfl, if_pos rfl]
  · rw [if_neg (by decide), if_pos rfl, if_neg (by decide)]

/-- A datagram that was read ends the iteration, for good only when it was the last reply. -/
theorem respond_some (s : Sender) (datagram : List UInt8) (junk : Buffer) :
    respond s (some datagram) junk =
      endIteration (processResponse s (some datagram) junk).1
        (decide ((processResponse s (some datagram) junk).2 = 1)) := by
  have hcode : (processResponse s (some datagram) junk).2 ≠ -2 ∧
      (processResponse s (some datagram) junk).2 ≠ -3 := by
    rcases processResponse_cases s datagram junk with
      ⟨packet, -, -, h⟩ | ⟨packet, -, -, h⟩ | ⟨code, -, h2, h3, h⟩
    · rw [h]
      rcases processAck_code s packet with hc | hc <;> rw [hc] <;> decide
    · rw [h]
      rcases processNack_code s packet with hc | hc <;> rw [hc] <;> decide
    · rw [h]
      exact ⟨h2, h3⟩
  simp only [respond, if_neg hcode.1, if_neg hcode.2]
  by_cases h1 : (processResponse s (some datagram) junk).2 = 1
  · rw [if_pos h1, decide_eq_true h1]
  · rw [if_neg h1, decide_eq_false h1]

/-- The sender behind an ACK, fast retransmit apart. -/
def Sender.acknowledge (s : Sender) (window seqnum : UInt8) (counter : ℕ) : Sender :=
  { s with
    sendingStack := removeAcked s.totalPacketsToSend s.sendingStack seqnum
    receiverWindowSize := window
    lastSeqnumAcked := seqnum
    lastSeqnumAckedCounter := counter }

/-- An ACK that was sent: its packets go, and its repetition may ask for its number. -/
theorem respond_ack (s : Sender) (junk : Buffer) {window : UInt8} (ts : UInt32) (seqnum : UInt8)
    (h : window.toNat ≤ 31) :
    ∃ (t : Sender) (counter : ℕ) (mainBreak : Bool),
      respond s (some (wire (replyPkt window .ack ts seqnum))) junk = endIteration t mainBreak ∧
      (t = s.acknowledge window seqnum counter ∨
        s.lastSeqnumAcked = seqnum ∧ t = { s.acknowledge window seqnum counter with
          seqnumToSend := seqnum
          hasFastRetransmitted := true }) := by
  obtain ⟨packet, hseq, hwin, hres⟩ := processResponse_wire s junk window ts seqnum (Or.inl rfl)
  rw [replyPkt_window _ _ _ h] at hwin
  rw [if_pos rfl, processAck_eq] at hres
  rw [respond_some, hres]
  obtain ⟨counter, hc | ⟨hlast, hc⟩⟩ := countAck_eq s packet
  · refine ⟨_, counter, _, rfl, Or.inl ?_⟩
    rw [hc, hwin, hseq]
    rfl
  · refine ⟨_, counter, _, rfl, Or.inr ⟨hlast.trans hseq, ?_⟩⟩
    rw [hc, hwin, hseq]
    rfl

/-- A NACK that was sent: its number is asked for. -/
theorem respond_nack (s : Sender) (junk : Buffer) {window : UInt8} (ts : UInt32) (seqnum : UInt8)
    (h : window.toNat ≤ 31) :
    ∃ mainBreak : Bool, respond s (some (wire (replyPkt window .nack ts seqnum))) junk =
      endIteration { s with
        receiverWindowSize := window
        seqnumToSend := seqnum
        hasNACKed := true } mainBreak := by
  obtain ⟨packet, hseq, hwin, hres⟩ := processResponse_wire s junk window ts seqnum (Or.inr rfl)
  rw [replyPkt_window _ _ _ h] at hwin
  rw [if_neg (by decide), processNack_eq, hwin, hseq] at hres
  rw [respond_some, hres]
  exact ⟨_, rfl⟩

/-- What cannot be decoded is dropped. -/
theorem respond_rejected {s : Sender} {datagram : List UInt8} {junk : Buffer}
    (h : (replyOf junk datagram).1 ≠ .pktOk) :
    respond s (some datagram) junk = endIteration s false := by
  rw [respond_some]
  rcases processResponse_cases s datagram junk with
    ⟨packet, hrep, -, -⟩ | ⟨packet, hrep, -, -⟩ | ⟨code, hcode, -, -, hres⟩
  · exact absurd (congrArg Prod.fst hrep) h
  · exact absurd (congrArg Prod.fst hrep) h
  · rw [hres, decide_eq_false hcode]

end Transmit

end Trtp
