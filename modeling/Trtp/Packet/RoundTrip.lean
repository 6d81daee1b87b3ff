import Trtp.Packet.Codec

/-!
# `pkt_decode` undoes `pkt_encode`

Through the buffers the program uses: the encoder writes into a 528-byte buffer with anything in
it, the decoder reads the segment in a cleared 528-byte buffer. The clearing matters when the
CRC-32 of the payload is 0: the encoder leaves the CRC2 out, and the decoder reads zeros in its
place. Nothing is assumed of `crc32` but that it is a function of the bytes.
-/

namespace Trtp

open Trtp.Bytes

section RoundTrip

variable [Zlib]

/-- The segment that `pkt_encode` left at the start of the buffer, as `write` sends it. -/
def Encoded.segment (e : Encoded) : List UInt8 := e.buf.take e.len

theorem segment_pktEncode {pkt : Pkt} (h : Sendable pkt) (buf : List UInt8) {len : ℕ}
    (hcap : (wire pkt).length ≤ len) : (pktEncode pkt buf len).segment = wire pkt := by
  rw [pktEncode_eq h buf hcap, Encoded.segment, List.take_left]

/-- A segment in a cleared buffer decodes to the packet it came from, with both checksums. -/
theorem pktDecode_wire {pkt : Pkt} (h : Sendable pkt) {k len : ℕ} (hk : 4 ≤ k) (hlen : 12 ≤ len)
    (p : Pkt) :
    pktDecode (wire pkt ++ List.replicate k 0) len p =
      (.pktOk, { stamped pkt with payload := some pkt.bytes }) := by
  rw [wire_append, pktDecode_wireThen h hlen (fun _ => crc2_of_crc2Field pkt.bytes hk),
    crc2_of_crc2Field pkt.bytes hk]
  rfl

/-- The zeros behind a segment in a cleared buffer reach over a CRC2 that was left out. -/
theorem pktDecode_wire_zeros {pkt : Pkt} (h : Sendable pkt) (p : Pkt) :
    pktDecode (wire pkt ++ List.replicate (528 - (wire pkt).length) 0) (wire pkt).length p =
      (.pktOk, { stamped pkt with payload := some pkt.bytes }) := by
  have hwire := length_wire pkt
  have hlen := h.length_eq
  have hle := h.length_le
  unfold maxPayloadSize at hle
  by_cases hroom : 4 ≤ 528 - (wire pkt).length
  · exact pktDecode_wire h hroom (by omega) p
  · -- a full segment: its CRC2 ends with the buffer
    have hcrc2 : UInt32.ofNat (ofBE ((crc2Field pkt.bytes ++
        List.replicate (528 - (wire pkt).length) 0).take 4)) = crc32 pkt.bytes := by
      have h4 : (crc2Field pkt.bytes).length = 4 := by
        have := length_crc2Field_le pkt.bytes
        unfold crc2Field at hwire this ⊢
        split at hwire
        · rename_i hne
          rw [if_pos hne, length_toBE]
        · simp only [List.length_nil] at hwire
          omega
      have htake := crc2_of_crc2Field pkt.bytes (le_refl 4)
      rw [List.take_left' h4] at htake ⊢
      exact htake
    rw [wire_append, pktDecode_wireThen h (by omega) (fun _ => hcrc2), hcrc2]
    rfl

/-- **Decode undoes encode.** For every sendable packet, whatever the 528-byte buffer held before:
`pkt_encode` succeeds with a size `n ≤ 528`, and `pkt_decode` of the `n` bytes in an otherwise zero
528-byte buffer succeeds with every field of the packet and the checksums the encoder stored. -/
theorem pktDecode_pktEncode {pkt : Pkt} (h : Sendable pkt) (buf : Buffer) :
    let e := pktEncode pkt buf.1 528
    let data := e.segment ++ List.replicate (528 - e.len) 0
    e.status = .pktOk ∧ e.len ≤ 528 ∧ data.length = 528 ∧
      ∃ q, pktDecode data e.len pktNew = (.pktOk, q) ∧ q.type = pkt.type ∧ q.tr = pkt.tr ∧
        q.window = pkt.window ∧ q.seqnum = pkt.seqnum ∧ q.length = pkt.length ∧
        q.timestamp = pkt.timestamp ∧ q.payload = some pkt.bytes ∧
        q.crc1 = e.pkt.crc1 ∧ q.crc2 = e.pkt.crc2 := by
  have hle := length_wire_le h
  have hseg := segment_pktEncode h buf.1 hle
  have henc := pktEncode_eq h buf.1 hle
  intro e data
  have hlen : e.len = (wire pkt).length := by rw [show e = _ from henc]
  have hdata : data = wire pkt ++ List.replicate (528 - (wire pkt).length) 0 := by
    simp only [data, hlen, e, hseg]
  have hpkt : e.pkt = stamped pkt := by rw [show e = _ from henc]
  refine ⟨by rw [show e = _ from henc], hlen ▸ hle, ?_,
    { stamped pkt with payload := some pkt.bytes }, ?_, rfl, rfl, rfl, rfl, rfl, rfl, rfl, ?_, ?_⟩
  · rw [hdata, List.length_append, List.length_replicate]
    omega
  · rw [hdata, hlen]
    exact pktDecode_wire_zeros h pktNew
  · rw [hpkt]
  · rw [hpkt]

end RoundTrip

/-- The packet of `packetTest.c`: its payload is "zzabcdefzz" with the terminating zero. -/
def testPacket : Pkt :=
  { pktNew with
    type := .data, window := 31, seqnum := 255, timestamp := 4294967294, length := 11
    payload := some [122, 122, 97, 98, 99, 100, 101, 102, 122, 122, 0] }

open Zlib.Standard in
theorem pktDecode_pktEncode_test :
    (pktEncode testPacket cleared.1 528).status = .pktOk ∧
      ∃ q, pktDecode ((pktEncode testPacket cleared.1 528).segment ++
          List.replicate (528 - (pktEncode testPacket cleared.1 528).len) 0)
          (pktEncode testPacket cleared.1 528).len pktNew = (.pktOk, q) ∧
        q.seqnum = 255 ∧ q.length = 11 := by
  have hsend : Sendable testPacket := ⟨by decide, by decide, by decide, by decide⟩
  obtain ⟨hok, -, -, q, hq, -, -, -, hseq, hlen, -, -, -, -⟩ := pktDecode_pktEncode hsend cleared
  exact ⟨hok, q, hq, hseq, hlen⟩

end Trtp
