import Trtp.Packet.Coherence
import Trtp.Receiver.Traffic

/-!
# Truncated packets (`packet.c:78-162`, `packet.h:64-84`, `read_write_loop_receiver.c:129-196`)

A router that truncates a packet sets its TR bit and keeps the header. `packet.h` has the CRC1
checked "en considerant le champ TR a 0". `pkt_decode` clears the bit in the structure but takes
the checksum of the raw bytes, where it is set; `pkt_encode` takes it of a header with the bit 0.
So the header of a truncated packet never matches its CRC1.

A packet that was encoded with TR 1 is accepted. The receiver answers it with a NACK, frees it, and
goes on with the freed packet: there is no `continue`.

* `truncated_refused`: **the 12 bytes of a packet truncated on the way get `E_CRC`**, always.
* `truncated_used`: **a turn with an accepted truncated packet always depends on the freed memory**;
  it sends the NACK alone and keeps the state exactly when that memory happens to hold the number
  of a stored packet.
-/

namespace Trtp

open Trtp.Bytes Trtp.Run

/-! ## Truncation on the way -/

/-- The TR bit of byte 0 set, and the first 12 bytes kept. -/
def truncate (segment : List UInt8) : List UInt8 :=
  (segment.set 0 (segment.getD 0 0 ||| 0x20)).take 12

section Refused

variable [Zlib]

/-- The header of a packet is accepted as truncated. -/
def Recognised (pkt : Pkt) (data : Buffer) : Prop :=
  ∃ q, pktDecode data.1 12 pktNew = (.pktOk, q) ∧ q.tr = 1 ∧ q.type = pkt.type ∧
    q.window = pkt.window ∧ q.seqnum = pkt.seqnum ∧ q.timestamp = pkt.timestamp

end Refused

/-- The TR bit of a packet that is not truncated changes when it is set. -/
theorem headerByte_or_ne {pkt : Pkt} (h : pkt.tr = 0) :
    headerByte pkt ||| 0x20 ≠ headerByte pkt := by
  have hall : ∀ (type : PType) (window : Fin 32),
      UInt8.ofNat (window + 32 * (0 : Fin 2) + 64 * type.bits) ||| 0x20 ≠
        UInt8.ofNat (window + 32 * (0 : Fin 2) + 64 * type.bits) := by
    intro type
    cases type <;> decide
  rw [headerByte, h]
  exact hall pkt.type pkt.window

/-- The first 12 bytes of a segment, truncated: another byte 0, the same CRC1. -/
theorem truncate_wire [Zlib] (pkt : Pkt) :
    truncate (wire pkt) =
      (header pkt).set 0 (headerByte pkt ||| 0x20) ++ toBE 4 (crc32 (header pkt)).toNat := by
  have hhead : header pkt = headerByte pkt :: (header pkt).tail := rfl
  have hwire : wire pkt = headerByte pkt :: ((header pkt).tail ++
      (toBE 4 (crc32 (header pkt)).toNat ++ (pkt.bytes ++ crc2Field pkt.bytes))) := by
    rw [wire, List.append_assoc, List.append_assoc, ← List.cons_append, ← hhead]
  rw [truncate, hwire, List.getD_cons_zero, List.set_cons_zero, hhead, List.set_cons_zero,
    ← hhead, ← List.cons_append, ← List.append_assoc]
  exact List.take_left' (by simp [length_header])

/-- The fields of the 12 bytes. -/
theorem slice_truncated [Zlib] {pkt : Pkt} {data : List UInt8}
    (hdata : data.take 12 = truncate (wire pkt)) {off n : ℕ} (h : off + n ≤ 12) :
    slice data off n = slice ((header pkt).set 0 (headerByte pkt ||| 0x20) ++
      toBE 4 (crc32 (header pkt)).toNat) off n := by
  rw [truncate_wire] at hdata
  apply slice_congr _ h
  rw [hdata, List.take_of_length_le (by simp)]

open Zlib.Standard in
/-- The header with the TR bit set does not match the CRC1 of the header without. -/
theorem not_fits_truncated {pkt : Pkt} (h : pkt.tr = 0) {data : List UInt8}
    (hdata : data.take 12 = truncate (wire pkt)) : ¬ Fits data := by
  intro hf
  have hset : ((header pkt).set 0 (headerByte pkt ||| 0x20)).length = 8 := by simp
  have h8 : data.take 8 = (header pkt).set 0 (headerByte pkt ||| 0x20) := by
    have hcut : slice data 0 8 = _ := slice_truncated hdata (by decide)
    exact hcut.trans (List.take_left' hset)
  have h4 : slice data 8 4 = toBE 4 (crc32 (header pkt)).toNat := by
    rw [slice_truncated hdata (by decide), slice_append _ _ _ hset.symm]
    exact List.take_of_length_le (by simp)
  have hlt : (crc32 (header pkt)).toNat < 256 ^ 4 := (crc32 (header pkt)).toNat_lt
  have hcrc := hf.crc1_eq
  rw [h4, ofBE_toBE, Nat.mod_eq_of_lt hlt, UInt32.ofNat_toNat, h8] at hcrc
  have hne : (header pkt).set 0 (headerByte pkt ||| 0x20) ≠ header pkt := by
    intro heq
    exact headerByte_or_ne h (congrArg (fun d => d.getD 0 0) heq)
  have hafter : ((header pkt).set 0 (headerByte pkt ||| 0x20)).drop (0 + 4) =
      (header pkt).drop (0 + 4) := List.drop_set_of_lt (by decide)
  exact Zlib.Standard.crc32_ne_of_burst 0 (by simp)
    (by rw [List.take_zero, List.take_zero]) hafter hne hcrc.symm

open Zlib.Standard in
/-- The verdict on the 12 bytes, whatever stands behind them. -/
theorem status_truncated {pkt : Pkt} (h : Sendable pkt) (buf data : Buffer)
    (hdata : data.1.take 12 = truncate (pktEncode pkt buf.1 528).segment) :
    (pktDecode data.1 12 pktNew).1 = .eCrc := by
  rw [segment_pktEncode h buf.1 (length_wire_le h)] at hdata
  have hlt : pkt.length.toNat < 256 ^ 2 := pkt.length.toNat_lt
  have hhead : (header pkt).set 0 (headerByte pkt ||| 0x20) =
      [headerByte pkt ||| 0x20, pkt.seqnum] ++ (toBE 2 pkt.length.toNat ++
        toLE 4 pkt.timestamp.toNat) := by
    rw [header, List.append_assoc]
    rfl
  have h2 : slice data.1 2 2 = toBE 2 pkt.length.toNat := by
    rw [slice_truncated hdata (by decide), hhead, List.append_assoc, List.append_assoc]
    exact slice_mid _ _ _ rfl (by simp)
  have hlen : lengthField data.1 = pkt.length := by
    rw [lengthField, h2, ofBE_toBE, Nat.mod_eq_of_lt hlt, UInt16.ofNat_toNat]
  rw [status_of_not_fits (le_refl 12) (not_fits_truncated h.tr_eq hdata), hlen,
    if_neg (not_lt.mpr h.length_le)]

open Zlib.Standard in
/-- **A packet truncated on the way is never recognised**: for every packet that is not truncated
itself, in a buffer with anything behind the 12 bytes. -/
theorem truncated_refused {pkt : Pkt} (h : Sendable pkt) (buf data : Buffer)
    (hdata : data.1.take 12 = truncate (pktEncode pkt buf.1 528).segment) :
    (pktDecode data.1 12 pktNew).1 = .eCrc ∧ ¬ Recognised pkt data := by
  have hcrc := status_truncated h buf data hdata
  refine ⟨hcrc, ?_⟩
  rintro ⟨q, hq, -⟩
  rw [hq] at hcrc
  exact absurd hcrc (by simp)

/-- The packet of `packetTest.c` truncated on the way, in the cleared buffer. -/
def testTruncated [Zlib] : Buffer :=
  ⟨readInto cleared 528 (truncate (pktEncode testPacket cleared.1 528).segment),
    length_readInto cleared (le_refl 528) _⟩

theorem length_truncate_test [Zlib] :
    (truncate (pktEncode testPacket cleared.1 528).segment).length = 12 := by
  have hsend : Sendable testPacket := ⟨by decide, by decide, by decide, by decide⟩
  rw [segment_pktEncode hsend _ (length_wire_le hsend), truncate_wire]
  simp

theorem take_testTruncated [Zlib] :
    testTruncated.1.take 12 = truncate (pktEncode testPacket cleared.1 528).segment := by
  have h12 := length_truncate_test
  have hread := readInto_cleared (h12.le.trans (by decide : 12 ≤ 528))
  exact (congrArg (List.take 12) hread).trans (List.take_left' h12)

open Zlib.Standard in
theorem truncated_refused_test :
    (pktDecode testTruncated.1 12 pktNew).1 = .eCrc ∧ ¬ Recognised testPacket testTruncated :=
  truncated_refused ⟨by decide, by decide, by decide, by decide⟩ cleared testTruncated
    take_testTruncated

open Zlib.Standard in
/-- **`E_CRC` for packet 255**: the NACK asks for the expected packet 0 instead. -/
theorem test_not_recognised :
    ¬ Recognised testPacket testTruncated ∧
      ∃ ts, receive pktNew Receiver.start (truncate (pktEncode testPacket cleared.1 528).segment) =
        (Receiver.start, [wire (replyPkt 31 .nack ts 0)]) := by
  have hsend : Sendable testPacket := ⟨by decide, by decide, by decide, by decide⟩
  have hcrc := status_truncated hsend cleared testTruncated take_testTruncated
  refine ⟨?_, receive_of_rejected ?_ pktNew Receiver.start⟩
  · rintro ⟨q, hq, -⟩
    rw [hq] at hcrc
    exact absurd hcrc (by simp)
  · rw [length_truncate_test]
    exact fun hok => absurd (hcrc.symm.trans hok) (by simp)

/-! ## A truncated packet that is accepted -/

section Used

variable [Zlib] {r : Receiver} {packet : Pkt} {datagram : List UInt8}

/-- The turn is the NACK of the packet's own number and nothing else. -/
def OnlyNacked (dangling : Pkt) (r : Receiver) (packet : Pkt) (datagram : List UInt8) : Prop :=
  receive dangling r datagram =
    (r, [wire (replyPkt r.window .nack packet.timestamp packet.seqnum)])

/-- What the freed memory holds does not matter. -/
def NotUsedAgain (r : Receiver) (datagram : List UInt8) : Prop :=
  ∀ dangling dangling', receive dangling r datagram = receive dangling' r datagram

/-- The state is kept and nothing is sent exactly for the number of a stored packet. -/
theorem accept_silent_iff {ts : UInt32} :
    accept r packet ts = (r, []) ↔ packet.seqnum ≠ r.expectedSeqnum ∧
      isExpected r.expectedSeqnum packet.seqnum ∧
      isInStack r.receivingStack packet.seqnum = true := by
  constructor
  · intro h
    have hign : Ignored r packet := accept_eq_self_iff.mp (congrArg Prod.fst h)
    by_cases hwin : isExpected r.expectedSeqnum packet.seqnum
    · exact ⟨hign.1, hwin, hign.2 hwin⟩
    · rw [accept_outOfSequence hign.1 hwin] at h
      exact absurd (congrArg Prod.snd h) (by simp)
  · rintro ⟨hne, hwin, hin⟩
    exact accept_duplicate hne hwin hin

/-- The freed memory decides: with the expected number in it, something is written. -/
theorem not_notUsedAgain (h : Accepted datagram packet) (htr : packet.tr = 1) (r : Receiver) :
    ¬ NotUsedAgain r datagram := by
  intro hsame
  obtain ⟨next, hnext⟩ : ∃ pkt : Pkt, pkt.seqnum = r.expectedSeqnum :=
    ⟨{ pktNew with seqnum := r.expectedSeqnum }, rfl⟩
  obtain ⟨old, hold⟩ : ∃ pkt : Pkt, pkt.seqnum = r.expectedSeqnum - 1 :=
    ⟨{ pktNew with seqnum := r.expectedSeqnum - 1 }, rfl⟩
  have hfar : offset r.expectedSeqnum old.seqnum = 255 := by
    have hlt := r.expectedSeqnum.toNat_lt
    rw [hold, offset, UInt8.toNat_sub, UInt8.toNat_sub, UInt8.toNat_one]
    omega
  have hne : old.seqnum ≠ r.expectedSeqnum := by
    intro heq
    rw [heq, offset_self] at hfar
    omega
  have hwin : ¬ isExpected r.expectedSeqnum old.seqnum := by
    rw [isExpected, inWindow_iff]
    omega
  have hfst := congrArg Prod.fst (hsame next old)
  rw [receive_truncated h htr, receive_truncated h htr] at hfst
  simp only at hfst
  rw [accept_outOfSequence hne hwin] at hfst
  exact (accept_eq_self_iff.mp hfst).1 hnext

/-- **A truncated packet is never only NACKed**: for every receiver state and every datagram that
is accepted as truncated, the turn depends on the freed memory. It is the NACK alone exactly for
memory that holds the number of a packet in the stack, inside the window. -/
theorem truncated_used (h : Accepted datagram packet) (htr : packet.tr = 1) (r : Receiver)
    (dangling : Pkt) :
    ¬ (OnlyNacked dangling r packet datagram ∧ NotUsedAgain r datagram) ∧
      (OnlyNacked dangling r packet datagram ↔ dangling.seqnum ≠ r.expectedSeqnum ∧
        isExpected r.expectedSeqnum dangling.seqnum ∧
        isInStack r.receivingStack dangling.seqnum = true) := by
  refine ⟨fun hc => not_notUsedAgain h htr r hc.2, ?_⟩
  have hsilent : accept r dangling packet.timestamp = (r, []) ↔ _ := accept_silent_iff
  rw [OnlyNacked, receive_truncated h htr, ← hsilent, Prod.mk.injEq, List.cons.injEq,
    Prod.ext_iff]
  simp only [true_and]

end Used

/-- The header of a truncated packet with the number expected at the start. -/
def truncatedPacket : Pkt := { pktNew with type := .data, tr := 1 }

/-- Its 12 bytes. -/
def truncatedFrame [Zlib] : List UInt8 := (pktEncode truncatedPacket cleared.1 528).segment

/-- What the decoder makes of them. -/
def truncatedReceived [Zlib] : Pkt :=
  (pktDecode (readInto cleared 528 truncatedFrame) (min 528 truncatedFrame.length) pktNew).2

set_option maxRecDepth 8000 in
open Zlib.Standard in
theorem accepted_truncatedFrame : Accepted truncatedFrame truncatedReceived :=
  Prod.ext (by decide +kernel) rfl

open Zlib.Standard in
theorem truncated_used_start :
    ¬ (OnlyNacked pktNew Receiver.start truncatedReceived truncatedFrame ∧
      NotUsedAgain Receiver.start truncatedFrame) :=
  (truncated_used accepted_truncatedFrame (by decide +kernel) Receiver.start pktNew).1

set_option maxRecDepth 8000 in
open Zlib.Standard in
/-- **A packet of the file is skipped**: the freed memory still holds the packet, an empty write
goes out and packet 0 counts as delivered and acknowledged. -/
theorem truncated_skips :
    Accepted truncatedFrame truncatedReceived ∧ truncatedReceived.tr = 1 ∧
      (receive truncatedReceived Receiver.start truncatedFrame).1.output = [[]] ∧
      (receive truncatedReceived Receiver.start truncatedFrame).1.expectedSeqnum = 1 ∧
      (receive truncatedReceived Receiver.start truncatedFrame).2.length = 2 ∧
      ¬ OnlyNacked truncatedReceived Receiver.start truncatedReceived truncatedFrame := by
  have hout : (receive truncatedReceived Receiver.start truncatedFrame).1.output = [[]] := by
    decide +kernel
  refine ⟨accepted_truncatedFrame, by decide +kernel, hout, by decide +kernel, by decide +kernel,
    fun honly => ?_⟩
  rw [show receive truncatedReceived Receiver.start truncatedFrame = _ from honly] at hout
  exact absurd hout (by decide)

end Trtp
