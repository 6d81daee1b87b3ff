import Trtp.Packet.RoundTrip

/-!
# The segment format (`src/packet/packet.c:165-242`, `packet.h:86-98`)

A segment is eight bytes of header, their CRC-32, and for a packet with a payload the payload and
its CRC-32. `pkt_encode` writes the last field when its value is not 0, not when there is a
payload: about one payload in 2^32 has a CRC-32 of 0 and goes out four bytes short. The decoder
reads the cleared buffer in its place, so `pktDecode_pktEncode` does not notice.

* `format_iff`: **the encoder writes the format exactly when the payload is empty or its CRC-32 is
  not 0**.
* `not_format_zeroCrc`: four bytes with CRC-32 0.
* `wire_parse`: what the decoder accepted with TR 0 is the segment of the packet it returned;
  `pktEncode_pktDecode`: **encode undoes decode**.
-/

namespace Trtp

open Trtp.Bytes

/-! ## The format -/

/-- The header: type and window in a byte, the number, the length in network order, the timestamp
as it is stored. -/
def formatHeader (pkt : Pkt) : List UInt8 :=
  [UInt8.ofNat pkt.type.bits <<< 6 ||| UInt8.ofNat pkt.window, pkt.seqnum] ++
    toBE 2 pkt.length.toNat ++ toLE 4 pkt.timestamp.toNat

theorem formatHeader_eq {pkt : Pkt} (h : pkt.tr = 0) : formatHeader pkt = header pkt := by
  have hbyte : UInt8.ofNat pkt.type.bits <<< 6 ||| UInt8.ofNat pkt.window = headerByte pkt := by
    have hall : ∀ (type : PType) (window : Fin 32),
        UInt8.ofNat type.bits <<< 6 ||| UInt8.ofNat window =
          UInt8.ofNat (window + 32 * (0 : Fin 2) + 64 * type.bits) := by
      intro type
      cases type <;> decide
    rw [headerByte, h]
    exact hall pkt.type pkt.window
  rw [formatHeader, header, hbyte]

theorem Sendable.length_eq_zero {pkt : Pkt} (h : Sendable pkt) :
    pkt.length = 0 ↔ pkt.bytes = [] := by
  rw [← List.length_eq_zero_iff, h.length_eq, ← UInt16.toNat_inj]
  rfl

section Format

variable [Zlib]

/-- A segment of the format: every payload is followed by its CRC2. -/
def format (pkt : Pkt) : List UInt8 :=
  formatHeader pkt ++ toBE 4 (crc32 (formatHeader pkt)).toNat ++
    if pkt.length = 0 then [] else pkt.bytes ++ toBE 4 (crc32 pkt.bytes).toNat

/-- `pkt_encode` succeeds, with `*len` the size of the format and the format in the buffer. -/
structure Formats (pkt : Pkt) (buf : List UInt8) (len : ℕ) : Prop where
  status_eq : (pktEncode pkt buf len).status = .pktOk
  len_eq : (pktEncode pkt buf len).len = if pkt.length = 0 then 12 else 16 + pkt.length.toNat
  segment_eq : (pktEncode pkt buf len).segment = format pkt

variable {pkt : Pkt}

/-- The segment of a packet, by the cases of its last field. -/
theorem wire_eq_format (h : Sendable pkt) (hcrc : pkt.length = 0 ∨ crc32 pkt.bytes ≠ 0) :
    wire pkt = format pkt := by
  rw [wire, format, formatHeader_eq h.tr_eq]
  by_cases h0 : pkt.length = 0
  · rw [if_pos h0, h.length_eq_zero.mp h0, crc2Field_nil, List.append_nil, List.append_nil]
  · rw [if_neg h0, crc2Field, if_pos (hcrc.resolve_left h0), List.append_assoc]

theorem length_wire_of_crc (h : Sendable pkt) :
    (wire pkt).length =
      if pkt.length = 0 then 12
      else if crc32 pkt.bytes = 0 then 12 + pkt.length.toNat else 16 + pkt.length.toNat := by
  rw [length_wire, h.length_eq, crc2Field]
  by_cases h0 : pkt.length = 0
  · rw [if_pos h0, h.length_eq_zero.mp h0, crc32_nil, h0]
    rfl
  · rw [if_neg h0]
    by_cases hcrc : crc32 pkt.bytes = 0
    · rw [if_neg (not_not.mpr hcrc), if_pos hcrc, List.length_nil, Nat.add_zero]
    · rw [if_pos hcrc, if_neg hcrc, length_toBE]
      omega

theorem length_wire_le_room (h : Sendable pkt) {len : ℕ} (hcap : 16 + pkt.length.toNat ≤ len) :
    (wire pkt).length ≤ len := by
  have h4 := length_crc2Field_le pkt.bytes
  rw [length_wire, h.length_eq]
  omega

/-- **When the encoder writes the format**: for every packet that is not truncated, with room for
header, payload and CRC2. -/
theorem format_iff (h : Sendable pkt) (buf : List UInt8) {len : ℕ}
    (hcap : 16 + pkt.length.toNat ≤ len) :
    Formats pkt buf len ↔ pkt.length = 0 ∨ crc32 pkt.bytes ≠ 0 := by
  have henc := pktEncode_eq h buf (length_wire_le_room h hcap)
  have hseg := segment_pktEncode h buf (length_wire_le_room h hcap)
  have hlen := length_wire_of_crc h
  constructor
  · intro hf
    have hsize := hf.len_eq
    rw [henc] at hsize
    by_contra hc
    obtain ⟨h0, hcrc⟩ := not_or.mp hc
    simp only [hlen, if_neg h0, if_pos (not_not.mp hcrc)] at hsize
    omega
  · intro hcrc
    refine ⟨by rw [henc], ?_, hseg.trans (wire_eq_format h hcrc)⟩
    rw [henc]
    simp only [hlen]
    by_cases h0 : pkt.length = 0
    · rw [if_pos h0, if_pos h0]
    · rw [if_neg h0, if_neg h0, if_neg (hcrc.resolve_left h0)]

end Format

open Zlib.Standard in
/-- The packet of `packetTest.c`, in a buffer of 27 bytes. -/
theorem format_iff_test :
    Formats testPacket (List.replicate 27 0) 27 ↔
      testPacket.length = 0 ∨ crc32 testPacket.bytes ≠ 0 :=
  format_iff ⟨by decide, by decide, by decide, by decide⟩ _ (by decide)

/-- Four bytes whose CRC-32 is 0. -/
def zeroCrcPacket : Pkt :=
  { pktNew with type := .data, length := 4, payload := some [0x9D, 0x0A, 0xD9, 0x6D] }

open Zlib.Standard in
/-- **The CRC2 is missing**: 16 bytes are written instead of 20. -/
theorem not_format_zeroCrc :
    (pktEncode zeroCrcPacket cleared.1 528).len = 16 ∧ ¬ Formats zeroCrcPacket cleared.1 528 := by
  have hsend : Sendable zeroCrcPacket := ⟨by decide, by decide, by decide, by decide⟩
  have hcrc : crc32 zeroCrcPacket.bytes = 0 := by decide +kernel
  have h16 : (pktEncode zeroCrcPacket cleared.1 528).len = 16 := by
    rw [pktEncode_eq hsend _ (length_wire_le hsend)]
    simp only [length_wire_of_crc hsend]
    rw [if_neg (by decide), if_pos hcrc]
    rfl
  refine ⟨h16, fun hf => ?_⟩
  have h20 := hf.len_eq
  rw [h16, if_neg (by decide)] at h20
  exact absurd h20 (by decide)

/-! ## Encode after decode -/

theorem bits_ofBits {n : ℕ} (h : n < 4) : (PType.ofBits n).bits = n := by
  match n, h with
  | 0, _ | 1, _ | 2, _ | 3, _ => rfl

/-- The first byte is written back as it was read. -/
theorem headerByte_setHeaderByte (pkt : Pkt) (b : UInt8) :
    headerByte (setHeaderByte pkt b) = b := by
  have hb := b.toNat_lt
  apply UInt8.toNat_inj.mp
  rw [toNat_headerByte]
  simp only [setHeaderByte]
  rw [bits_ofBits (by omega)]
  omega

/-- A word read from two bytes. -/
theorem toBE_lengthField {data : List UInt8} (h : 4 ≤ data.length) :
    toBE 2 (lengthField data).toNat = slice data 2 2 := by
  have hsize : (slice data 2 2).length = 2 := length_slice (by omega)
  have hlt := ofBE_lt (slice data 2 2)
  rw [hsize] at hlt
  rw [lengthField, UInt16.toNat_ofNat', show 2 ^ 16 = 256 ^ 2 from rfl, Nat.mod_eq_of_lt hlt]
  have hback := toBE_ofBE (slice data 2 2)
  rwa [hsize] at hback

theorem toBE_word {data : List UInt8} {off : ℕ} (h : off + 4 ≤ data.length) :
    toBE 4 (UInt32.ofNat (ofBE (slice data off 4))).toNat = slice data off 4 := by
  have hsize : (slice data off 4).length = 4 := length_slice h
  have hlt := ofBE_lt (slice data off 4)
  rw [hsize] at hlt
  rw [UInt32.toNat_ofNat', show 2 ^ 32 = 256 ^ 4 from rfl, Nat.mod_eq_of_lt hlt]
  have hback := toBE_ofBE (slice data off 4)
  rwa [hsize] at hback

theorem toLE_word {data : List UInt8} {off : ℕ} (h : off + 4 ≤ data.length) :
    toLE 4 (UInt32.ofNat (ofLE (slice data off 4))).toNat = slice data off 4 := by
  have hsize : (slice data off 4).length = 4 := length_slice h
  have hlt := ofLE_lt (slice data off 4)
  rw [hsize] at hlt
  rw [UInt32.toNat_ofNat', show 2 ^ 32 = 256 ^ 4 from rfl, Nat.mod_eq_of_lt hlt]
  have hback := toLE_ofLE (slice data off 4)
  rwa [hsize] at hback

theorem take_add_slice (data : List UInt8) (off n : ℕ) :
    data.take (off + n) = data.take off ++ slice data off n := by
  rw [slice, List.take_add]

/-- **The header of what was read is the header that was read.** -/
theorem header_parse {data : List UInt8} (h : 8 ≤ data.length) (pkt : Pkt) :
    header (parse data pkt) = data.take 8 := by
  have hbyte : headerByte (parse data pkt) = data.getD 0 0 := headerByte_setHeaderByte pkt _
  have hlen : toBE 2 (parse data pkt).length.toNat = slice data 2 2 := toBE_lengthField (by omega)
  have hts : toLE 4 (parse data pkt).timestamp.toNat = slice data 4 4 := toLE_word (by omega)
  have htwo : data.take 2 = [data.getD 0 0, data.getD 1 0] := by
    match data, h with
    | b0 :: b1 :: rest, _ => rfl
  rw [header, hbyte, hlen, hts, take_add_slice data 4 4, take_add_slice data 2 2, htwo]
  rfl

variable {data : List UInt8} {pkt : Pkt}

/-- What the decoder accepts with TR 0 can be sent. -/
theorem sendable_parse (hdata : data.length = 528) (hlen : (lengthField data).toNat ≤ 512)
    (hok : typeStatus (parse data pkt) = .pktOk) (htr : (parse data pkt).tr = 0) :
    Sendable (parse data pkt) where
  type_ne := by
    intro hc
    rw [typeStatus, if_pos hc] at hok
    exact absurd hok (by decide)
  tr_eq := htr
  length_eq := length_slice (by omega)
  length_le := hlen

section Image

variable [Zlib]

/-- **Its segment is what was received.** -/
theorem wire_parse (hdata : data.length = 528) (hlen : (lengthField data).toNat ≤ 512)
    (hcrcs : CrcsHold data (parse data pkt)) (htr : (parse data pkt).tr = 0)
    (hsend : Sendable (parse data pkt)) :
    wire (parse data pkt) = data.take (wire (parse data pkt)).length := by
  have hbytes : (parse data pkt).bytes = slice data 12 (lengthField data).toNat := rfl
  have hcrc1 : toBE 4 (crc32 (header (parse data pkt))).toNat = slice data 8 4 := by
    rw [header_parse (by omega), ← hcrcs.1]
    exact toBE_word (by omega)
  have hbody : header (parse data pkt) ++ toBE 4 (crc32 (header (parse data pkt))).toNat ++
      (parse data pkt).bytes = data.take (12 + (lengthField data).toNat) := by
    rw [hcrc1, header_parse (by omega), hbytes, take_add_slice data 12, take_add_slice data 8 4]
  have hsize := length_wire_of_crc hsend
  rw [hsize, wire, hbody, crc2Field]
  by_cases h0 : (parse data pkt).length = 0
  · have hL : (lengthField data).toNat = 0 := congrArg UInt16.toNat h0
    rw [if_pos h0, hsend.length_eq_zero.mp h0, crc32_nil, hL, if_neg (by simp), List.append_nil]
  · rw [if_neg h0]
    by_cases hcrc : crc32 (parse data pkt).bytes = 0
    · rw [if_pos hcrc, if_neg (not_not.mpr hcrc), List.append_nil]
      rfl
    · have hcrc2 : toBE 4 (crc32 (parse data pkt).bytes).toNat =
          slice data (12 + (lengthField data).toNat) 4 := by
        have hget : pktGetCrc2 (parse data pkt) =
            UInt32.ofNat (ofBE (slice data (12 + (lengthField data).toNat) 4)) := by
          have hfill : (fill data pkt).tr = 0 := htr
          rw [pktGetCrc2, if_neg (not_not.mpr htr), parse, clearCrc2, pktGetCrc2,
            if_neg (not_not.mpr hfill)]
          rfl
        rw [show crc32 (parse data pkt).bytes = pktGetCrc2 (parse data pkt) from
          (hcrcs.2 h0).symm, hget]
        exact toBE_word (by omega)
      rw [if_neg hcrc, if_pos hcrc, hcrc2, ← take_add_slice]
      congr 1
      change 12 + (lengthField data).toNat + 4 = 16 + (lengthField data).toNat
      omega

/-- **Encode undoes decode.** What `pkt_decode` accepted with TR 0, encoded again into a buffer of
at least 528 bytes, is the received segment byte for byte, without a CRC2 of 0; of the packet only
the CRC2 field may change. -/
theorem pktEncode_pktDecode (data : Buffer) {len : ℕ} {p pkt : Pkt}
    (h : pktDecode data.1 len p = (.pktOk, pkt)) (htr : pkt.tr = 0) (buf : List UInt8)
    (hbuf : 528 ≤ buf.length) :
    let e := pktEncode pkt buf buf.length
    let n := if pkt.length = 0 then 12
      else if crc32 pkt.bytes = 0 then 12 + pkt.length.toNat else 16 + pkt.length.toNat
    e.status = .pktOk ∧ e.len = n ∧ e.buf.take n = data.1.take n ∧
      e.buf.drop n = buf.drop n ∧ e.pkt.type = pkt.type ∧ e.pkt.window = pkt.window ∧
      e.pkt.seqnum = pkt.seqnum ∧ e.pkt.length = pkt.length ∧
      e.pkt.timestamp = pkt.timestamp ∧ e.pkt.payload = pkt.payload ∧ e.pkt.crc1 = pkt.crc1 := by
  obtain ⟨hL, hcrcs, hok, rfl⟩ := (pktDecode_ok_iff data.1 (le_len_of_ok h) p pkt).mp h
  have hsend := sendable_parse data.2 hL hok htr
  have hwire := wire_parse data.2 hL hcrcs htr hsend
  have hcap : (wire (parse data.1 p)).length ≤ buf.length := (length_wire_le hsend).trans hbuf
  have hcrc1 : crc32 (header (parse data.1 p)) = (parse data.1 p).crc1 := by
    rw [header_parse (by rw [data.2]; decide)]
    exact hcrcs.1.symm
  intro e n
  have hn : n = (wire (parse data.1 p)).length := (length_wire_of_crc hsend).symm
  have he : e = _ := pktEncode_eq hsend buf hcap
  rw [hn, he]
  refine ⟨rfl, rfl, ?_, ?_, rfl, rfl, rfl, rfl, rfl, rfl, hcrc1⟩
  · rw [List.take_left, ← hwire]
  · rw [List.drop_left]

end Image

open Zlib.Standard in
/-- The segment of `packetTest.c`'s packet, read and written again. -/
theorem pktEncode_pktDecode_test :
    ∃ pkt, pktDecode (readInto cleared 528 (wire testPacket)) 27 pktNew = (.pktOk, pkt) ∧
      (pktEncode pkt cleared.1 cleared.1.length).status = .pktOk := by
  have hsend : Sendable testPacket := ⟨by decide, by decide, by decide, by decide⟩
  have h27 : (wire testPacket).length = 27 := by decide +kernel
  have hread := readInto_cleared (length_wire_le hsend)
  have hdec := pktDecode_wire hsend (k := 501) (by omega) (show 12 ≤ 27 by omega) pktNew
  rw [h27] at hread
  rw [← hread] at hdec
  exact ⟨_, hdec, (pktEncode_pktDecode ⟨_, length_readInto cleared (le_refl 528) _⟩ hdec rfl
    cleared.1 cleared.2.ge).1⟩

end Trtp
