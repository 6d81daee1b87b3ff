import Trtp.Packet.Basic

/-!
# `pkt_decode` and `pkt_encode` (`src/packet/packet.c:40-242`)

The two functions in the order the C code runs, every early return included. Buffers are byte
lists; a `memcpy` out of a buffer is `slice`, one into a buffer `overwrite`. Integers are as on a
little-endian host: `htons` / `htonl` fields are read and written most significant byte first,
the timestamp, copied as it is, least significant byte first.

* `pktDecode_eq`: the decoder as one verdict over the structure it fills (`parse`).
* `wire pkt`: the segment of a packet: header, CRC1, payload, and the CRC2 unless it is 0.
* `pktEncode_of_tr_zero`: the encoder without TR, on any structure.
* `pktEncode_eq`: **on a sendable packet the encoder writes exactly `wire pkt`**, whatever the
  buffer held.
* `parse_wireThen`: what the decoder reads out of a segment with anything behind it.

Premises: the pointers are not `NULL` and `malloc` succeeds (a `NULL` check has no counterpart).
-/

namespace Trtp

open Trtp.Bytes

/-- `n` bytes of `data` from offset `off`. -/
def slice (data : List UInt8) (off n : ℕ) : List UInt8 := (data.drop off).take n

/-- `char buf[16 + MAX_PAYLOAD_SIZE]`. -/
abbrev Buffer := { buf : List UInt8 // buf.length = 528 }

/-- `memset(buf, 0, MAX_PAYLOAD_SIZE + 16)`. -/
def cleared : Buffer := ⟨List.replicate 528 0, List.length_replicate⟩

/-- `read(sfd, buf, n)`: the first `n` bytes of the datagram land at the start of the buffer. -/
def readInto (buf : Buffer) (n : ℕ) (datagram : List UInt8) : List UInt8 :=
  overwrite buf.1 0 (datagram.take n)

/-- `if(statusCode != PKT_OK) return statusCode;` in front of the rest of a function. -/
def andThen (r : PktStatusCode × Pkt) (rest : Pkt → PktStatusCode × Pkt) : PktStatusCode × Pkt :=
  if r.1 = .pktOk then rest r.2 else r

@[simp] theorem andThen_ok (pkt : Pkt) (rest : Pkt → PktStatusCode × Pkt) :
    andThen (.pktOk, pkt) rest = rest pkt := if_pos rfl

theorem slice_append (x y : List UInt8) {off : ℕ} (n : ℕ) (h : off = x.length) :
    slice (x ++ y) off n = y.take n := by
  rw [slice, h, List.drop_left]

theorem slice_mid (x y z : List UInt8) {off n : ℕ} (hoff : off = x.length)
    (hn : n = y.length) : slice (x ++ (y ++ z)) off n = y := by
  rw [slice_append _ _ _ hoff, hn, List.take_left]

theorem length_slice {data : List UInt8} {off n : ℕ} (h : off + n ≤ data.length) :
    (slice data off n).length = n := by
  rw [slice, List.length_take, List.length_drop]
  omega

@[simp] theorem take_slice (data : List UInt8) (off n : ℕ) :
    (slice data off n).take n = slice data off n := by
  rw [slice, List.take_take, Nat.min_self]

/-- Four bytes are told apart by the word they are read as. -/
theorem ofBE_word_injective {as bs : List UInt8} (ha : as.length = 4) (hb : bs.length = 4)
    (h : UInt32.ofNat (ofBE as) = UInt32.ofNat (ofBE bs)) : as = bs := by
  have hbound : ∀ cs : List UInt8, cs.length = 4 → ofBE cs < 2 ^ 32 := by
    intro cs hcs
    have hlt := ofBE_lt cs
    rw [hcs] at hlt
    exact hlt
  have hnum := congrArg UInt32.toNat h
  rw [UInt32.toNat_ofNat', UInt32.toNat_ofNat', Nat.mod_eq_of_lt (hbound as ha),
    Nat.mod_eq_of_lt (hbound bs hb)] at hnum
  exact ofBE_injective (ha.trans hb.symm) hnum

theorem length_readInto (buf : Buffer) {n : ℕ} (hn : n ≤ 528) (datagram : List UInt8) :
    (readInto buf n datagram).length = 528 := by
  have hbuf := buf.2
  have htake := List.length_take_le n datagram
  rw [readInto, length_overwrite (by omega), hbuf]

/-- A datagram that fits, in a cleared buffer: zeros behind it. -/
theorem readInto_cleared {datagram : List UInt8} (h : datagram.length ≤ 528) :
    readInto cleared 528 datagram = datagram ++ List.replicate (528 - datagram.length) 0 := by
  rw [readInto, List.take_of_length_le h, overwrite_zero, cleared, List.drop_replicate]

section Functions

variable [Zlib]

/-- The end of `pkt_decode`, "Validation des CRC et des coherences". -/
def validate (data : List UInt8) (pkt : Pkt) : PktStatusCode × Pkt :=
  andThen (pktSetType pkt pkt.type) fun pkt =>
  andThen (pktSetTr pkt (pktGetTr pkt)) fun pkt =>
  andThen (pktSetWindow pkt (pktGetWindow pkt)) fun pkt =>
  andThen (pktSetSeqnum pkt pkt.seqnum) fun pkt =>
  andThen (pktSetLength pkt pkt.length) fun pkt =>
  andThen (pktSetTimestamp pkt pkt.timestamp) fun pkt =>
  andThen (pktSetCrc1 pkt pkt.crc1) fun pkt =>
  andThen (pktSetCrc2 pkt (pktGetCrc2 pkt)) fun pkt =>
  let trBeforeCRC1 := pktGetTr pkt
  andThen (pktSetTr pkt 0) fun pkt =>
  if pkt.crc1 ≠ crc32 (data.take 8) then (.eCrc, pkt)
  else
    andThen (pktSetTr pkt trBeforeCRC1) fun pkt =>
    if pkt.length ≠ 0 ∧ pktGetCrc2 pkt ≠ crc32 (slice data 12 pkt.length.toNat) then (.eCrc, pkt)
    else if pkt.type = .unset then (.eType, pkt)
    else if pkt.type ≠ .data ∧ pkt.tr ≠ 0 then (.eUnconsistent, pkt)
    else (.pktOk, pkt)

/-- `pkt_decode`: the status and the structure as it is left, also after an error. -/
def pktDecode (data : List UInt8) (len : ℕ) (pkt : Pkt) : PktStatusCode × Pkt :=
  if len = 0 then (.eUnconsistent, pkt)
  else if len < 12 then (.eNoheader, pkt)
  else
    let pkt := { setHeaderByte pkt (data.getD 0 0) with seqnum := data.getD 1 0 }
    andThen (pktSetLength pkt (UInt16.ofNat (ofBE (slice data 2 2)))) fun pkt =>
    andThen (pktSetTimestamp pkt (UInt32.ofNat (ofLE (slice data 4 4)))) fun pkt =>
    andThen (pktSetCrc1 pkt (UInt32.ofNat (ofBE (slice data 8 4)))) fun pkt =>
    andThen (pktSetPayload pkt (slice data 12 pkt.length.toNat) pkt.length) fun pkt =>
    andThen (pktSetCrc2 pkt (UInt32.ofNat (ofBE (slice data (12 + pkt.length.toNat) 4)))) fun pkt =>
    validate data pkt

/-- What `pkt_encode` leaves: the status, the structure with its CRCs, the buffer, and `*len`. -/
structure Encoded where
  status : PktStatusCode
  pkt : Pkt
  buf : List UInt8
  len : ℕ

/-- "Ecriture du payload dans le buffer". -/
def copyPayload (pkt : Pkt) (buf : List UInt8) : List UInt8 :=
  match pktGetPayload pkt with
  | some payload => overwrite buf 12 (payload.take pkt.length.toNat)
  | none => buf

/-- `pkt_encode`: `len` is the capacity on entry. -/
def pktEncode (pkt : Pkt) (buf : List UInt8) (len : ℕ) : Encoded :=
  if pkt.type ≠ .data ∧ pkt.tr ≠ 0 then ⟨.eUnconsistent, pkt, buf, len⟩
  else if len < 3 * 4 + pkt.length.toNat + 4 * pkt.tr then ⟨.eNomem, pkt, buf, len⟩
  else
    let buf := overwrite buf 0 [headerByte pkt]
    let buf := overwrite buf 1 [pkt.seqnum]
    let buf := overwrite buf 2 (toBE 2 pkt.length.toNat)
    let buf := overwrite buf 4 (toLE 4 pkt.timestamp.toNat)
    let pktnCrc1 := crc32 (buf.take 8)
    let pkt := { pkt with crc1 := pktnCrc1 }
    let buf := overwrite buf 8 (toBE 4 pktnCrc1.toNat)
    if pkt.tr ≠ 0 then
      if pkt.length ≠ 0 then ⟨.eUnconsistent, pkt, buf, len⟩ else ⟨.pktOk, pkt, buf, 12⟩
    else
      let buf := copyPayload pkt buf
      let charWritten := 12 + pkt.length.toNat
      let pktnCrc2 := crc32 (slice buf 12 pkt.length.toNat)
      let pkt := { pkt with crc2 := pktnCrc2 }
      if pktnCrc2 ≠ 0 ∧ pkt.tr = 0 then
        ⟨.pktOk, pkt, overwrite buf charWritten (toBE 4 pktnCrc2.toNat), charWritten + 4⟩
      else ⟨.pktOk, pkt, buf, charWritten⟩

end Functions

/-! ## The decoder as one verdict -/

/-- The length field of a buffer. -/
def lengthField (data : List UInt8) : UInt16 := UInt16.ofNat (ofBE (slice data 2 2))

/-- The structure `pkt_decode` fills from the raw bytes. -/
def fill (data : List UInt8) (pkt : Pkt) : Pkt :=
  { setHeaderByte pkt (data.getD 0 0) with
    seqnum := data.getD 1 0
    length := lengthField data
    timestamp := UInt32.ofNat (ofLE (slice data 4 4))
    crc1 := UInt32.ofNat (ofBE (slice data 8 4))
    payload := some (slice data 12 (lengthField data).toNat)
    crc2 := UInt32.ofNat (ofBE (slice data (12 + (lengthField data).toNat) 4)) }

/-- A truncated packet has no CRC2: `pkt_set_crc2(pkt, pkt_get_crc2(pkt))` clears the field. -/
def clearCrc2 (pkt : Pkt) : Pkt := { pkt with crc2 := pktGetCrc2 pkt }

/-- The structure of a datagram with a legal length. -/
def parse (data : List UInt8) (pkt : Pkt) : Pkt := clearCrc2 (fill data pkt)

/-- The verdict on a structure with good checksums. -/
def typeStatus (pkt : Pkt) : PktStatusCode :=
  if pkt.type = .unset then .eType
  else if pkt.type ≠ .data ∧ pkt.tr ≠ 0 then .eUnconsistent
  else .pktOk

section Verdict

variable [Zlib]

/-- Both checksums of a filled structure hold over the buffer. -/
def CrcsHold (data : List UInt8) (pkt : Pkt) : Prop :=
  pkt.crc1 = crc32 (data.take 8) ∧
    (pkt.length ≠ 0 → pktGetCrc2 pkt = crc32 (slice data 12 pkt.length.toNat))

instance (data : List UInt8) (pkt : Pkt) : Decidable (CrcsHold data pkt) :=
  inferInstanceAs (Decidable (_ ∧ (_ → _)))

/-- `validate` once the length is known to be legal: the status, and the structure it leaves. -/
theorem validate_eq (data : List UInt8) {pkt : Pkt} (h : pkt.length.toNat ≤ maxPayloadSize) :
    validate data pkt =
      if pkt.crc1 ≠ crc32 (data.take 8) then (.eCrc, { clearCrc2 pkt with tr := 0 })
      else if CrcsHold data (clearCrc2 pkt) then (typeStatus pkt, clearCrc2 pkt)
      else (.eCrc, clearCrc2 pkt) := by
  have hlen : pktSetLength pkt pkt.length = (.pktOk, pkt) := pktSetLength_of_le pkt h
  unfold validate
  simp only [pktSetType, pktSetSeqnum, pktSetTimestamp, pktSetCrc1, pktSetCrc2, pktSetTr_get,
    pktSetWindow_get, pktSetTr_zero, andThen_ok, hlen]
  by_cases hcrc : pkt.crc1 = crc32 (data.take 8)
  · rw [if_neg (not_not.mpr hcrc), if_neg (not_not.mpr hcrc), pktSetTr_of_get, andThen_ok]
    change (if pkt.length ≠ 0 ∧
        pktGetCrc2 (clearCrc2 pkt) ≠ crc32 (slice data 12 pkt.length.toNat) then
      (PktStatusCode.eCrc, clearCrc2 pkt) else _) = _
    by_cases hcrc2 : pkt.length ≠ 0 ∧
        pktGetCrc2 (clearCrc2 pkt) ≠ crc32 (slice data 12 pkt.length.toNat)
    · have hnot : ¬ CrcsHold data (clearCrc2 pkt) := fun hc => hcrc2.2 (hc.2 hcrc2.1)
      rw [if_pos hcrc2, if_neg hnot]
    · have hall : CrcsHold data (clearCrc2 pkt) :=
        ⟨hcrc, fun h0 => not_not.mp fun hne => hcrc2 ⟨h0, hne⟩⟩
      rw [if_neg hcrc2, if_pos hall]
      unfold typeStatus
      split
      · rfl
      · split <;> rfl
  · rw [if_pos hcrc, if_pos hcrc]
    rfl

/-- **`pkt_decode` as one verdict** on at least 12 received bytes. The number of bytes received
is not looked at again. -/
theorem pktDecode_eq (data : List UInt8) {len : ℕ} (hlen : 12 ≤ len) (pkt : Pkt) :
    pktDecode data len pkt =
      if maxPayloadSize < (lengthField data).toNat then
        (.eLength, { setHeaderByte pkt (data.getD 0 0) with seqnum := data.getD 1 0 })
      else if (parse data pkt).crc1 ≠ crc32 (data.take 8) then
        (.eCrc, { parse data pkt with tr := 0 })
      else if CrcsHold data (parse data pkt) then (typeStatus (parse data pkt), parse data pkt)
      else (.eCrc, parse data pkt) := by
  unfold pktDecode
  rw [if_neg (by omega), if_neg (by omega)]
  by_cases hL : maxPayloadSize < (lengthField data).toNat
  · rw [if_pos hL]
    unfold lengthField at hL
    simp only [pktSetLength, if_pos hL, andThen, reduceCtorEq, if_false]
  · have hle := not_lt.mp hL
    have hfill : (fill data pkt).length.toNat ≤ maxPayloadSize := hle
    have hv := validate_eq data hfill
    rw [if_neg hL]
    unfold lengthField at hle
    simp only [pktSetLength_of_le _ hle, pktSetTimestamp, pktSetCrc1, andThen_ok,
      pktSetPayload_of_le _ _ hle, pktSetCrc2, take_slice]
    exact hv

/-- Nothing shorter than a header is accepted. -/
theorem le_len_of_ok {data : List UInt8} {len : ℕ} {pkt q : Pkt}
    (h : pktDecode data len pkt = (.pktOk, q)) : 12 ≤ len := by
  by_contra hshort
  unfold pktDecode at h
  by_cases h0 : len = 0
  · rw [if_pos h0] at h
    exact absurd (congrArg Prod.fst h) (by simp)
  · rw [if_neg h0, if_pos (by omega)] at h
    exact absurd (congrArg Prod.fst h) (by simp)

/-- What an accepted datagram is: the verdict looks at the header, the checksums and the type. -/
theorem pktDecode_ok_iff (data : List UInt8) {len : ℕ} (hlen : 12 ≤ len) (pkt q : Pkt) :
    pktDecode data len pkt = (.pktOk, q) ↔
      (lengthField data).toNat ≤ maxPayloadSize ∧ CrcsHold data (parse data pkt) ∧
        typeStatus (parse data pkt) = .pktOk ∧ q = parse data pkt := by
  rw [pktDecode_eq data hlen]
  by_cases hL : maxPayloadSize < (lengthField data).toNat
  · rw [if_pos hL]
    simp only [Prod.mk.injEq, reduceCtorEq, false_and, false_iff]
    omega
  · rw [if_neg hL]
    by_cases hc : CrcsHold data (parse data pkt)
    · rw [if_neg (not_not.mpr hc.1), if_pos hc]
      simp only [Prod.mk.injEq, not_lt.mp hL, hc, true_and, eq_comm]
    · rw [if_neg hc]
      split <;> simp [hc]

end Verdict

/-! ## Segments -/

/-- The eight bytes in front of the CRC1. -/
def header (pkt : Pkt) : List UInt8 :=
  [headerByte pkt, pkt.seqnum] ++ toBE 2 pkt.length.toNat ++ toLE 4 pkt.timestamp.toNat

@[simp] theorem length_header (pkt : Pkt) : (header pkt).length = 8 := by
  simp [header]

theorem take_header (pkt : Pkt) (rest : List UInt8) :
    (header pkt ++ rest).take 8 = header pkt :=
  List.take_left' (length_header pkt)

/-- The four copies of the header, in the order they are made. -/
theorem overwrite_header (pkt : Pkt) (buf : List UInt8) :
    overwrite (overwrite (overwrite (overwrite buf 0 [headerByte pkt]) 1 [pkt.seqnum]) 2
      (toBE 2 pkt.length.toNat)) 4 (toLE 4 pkt.timestamp.toNat) = header pkt ++ buf.drop 8 := by
  rw [overwrite_zero, overwrite_append _ _ _ (show 1 = [headerByte pkt].length from rfl),
    overwrite_append _ _ _ (show 2 = ([headerByte pkt] ++ [pkt.seqnum]).length from rfl),
    overwrite_append _ _ _ (show 4 = ([headerByte pkt] ++ [pkt.seqnum] ++
      toBE 2 pkt.length.toNat).length by simp)]
  simp only [header, List.drop_drop, List.length_singleton, length_toBE, length_toLE]
  rfl

/-- The payload's copy; a `NULL` payload is an empty one here. -/
theorem copyPayload_eq {pkt : Pkt} (h : Sendable pkt) (done rest : List UInt8)
    (hdone : done.length = 12) :
    copyPayload pkt (done ++ rest) = done ++ pkt.bytes ++ rest.drop pkt.bytes.length := by
  have hget : pktGetPayload pkt = pkt.payload := if_neg (not_not.mpr h.tr_eq)
  have hlen := h.length_eq
  unfold copyPayload
  unfold Pkt.bytes at hlen ⊢
  rw [hget]
  cases hp : pkt.payload with
  | none => simp
  | some payload =>
    rw [hp, Option.getD_some] at hlen
    simp only [Option.getD_some]
    rw [List.take_of_length_le hlen.le, overwrite_append _ _ _ hdone.symm]

section Segment

variable [Zlib]

/-- The CRC2 as `pkt_encode` writes it: left out when it is 0. -/
def crc2Field (payload : List UInt8) : List UInt8 :=
  if crc32 payload ≠ 0 then toBE 4 (crc32 payload).toNat else []

/-- The segment of a packet. -/
def wire (pkt : Pkt) : List UInt8 :=
  header pkt ++ toBE 4 (crc32 (header pkt)).toNat ++ pkt.bytes ++ crc2Field pkt.bytes

/-- The structure after `pkt_encode` stored the checksums in it. -/
def stamped (pkt : Pkt) : Pkt :=
  { pkt with crc1 := crc32 (header pkt), crc2 := crc32 pkt.bytes }

theorem length_wire (pkt : Pkt) :
    (wire pkt).length = 12 + pkt.bytes.length + (crc2Field pkt.bytes).length := by
  simp only [wire, List.length_append, length_header, length_toBE]

theorem length_crc2Field_le (payload : List UInt8) : (crc2Field payload).length ≤ 4 := by
  unfold crc2Field
  split <;> simp

theorem crc2Field_nil : crc2Field [] = [] :=
  if_neg (not_not.mpr crc32_nil)

/-- A segment fits into the buffers of both programs. -/
theorem length_wire_le {pkt : Pkt} (h : Sendable pkt) : (wire pkt).length ≤ 528 := by
  have hlen := h.length_eq
  have hle := h.length_le
  have h4 := length_crc2Field_le pkt.bytes
  unfold maxPayloadSize at hle
  rw [length_wire]
  omega

/-- The buffer once the header and the CRC1 are written. -/
def withHeader (pkt : Pkt) (buf : List UInt8) : List UInt8 :=
  header pkt ++ toBE 4 (crc32 (header pkt)).toNat ++ buf.drop 12

/-- The five copies in front of the payload. -/
theorem overwrite_withHeader (pkt : Pkt) (buf : List UInt8) :
    overwrite (header pkt ++ buf.drop 8) 8 (toBE 4 (crc32 (header pkt)).toNat) =
      withHeader pkt buf := by
  rw [overwrite_append _ _ _ (length_header pkt).symm, List.drop_drop, length_toBE, withHeader]

/-- **The encoder without TR**, whatever the structure holds: the payload is copied behind the
header, and its CRC2, unless it is 0, behind the payload. -/
theorem pktEncode_of_tr_zero {pkt : Pkt} (h : pkt.tr = 0) (buf : List UInt8) {len : ℕ}
    (hroom : 12 + pkt.length.toNat ≤ len) {payload : List UInt8}
    (hpay : slice (copyPayload pkt (withHeader pkt buf)) 12 pkt.length.toNat = payload) :
    pktEncode pkt buf len =
      ⟨.pktOk, { pkt with crc1 := crc32 (header pkt), crc2 := crc32 payload },
        overwrite (copyPayload pkt (withHeader pkt buf)) (12 + pkt.length.toNat)
          (crc2Field payload),
        12 + pkt.length.toNat + (crc2Field payload).length⟩ := by
  have hlen : ¬ len < 3 * 4 + pkt.length.toNat + 4 * pkt.tr := by
    rw [h]
    simp only [Fin.isValue, Fin.val_zero]
    omega
  have hcopy : ∀ crc1 done, copyPayload { pkt with crc1 := crc1 } done = copyPayload pkt done :=
    fun _ _ => rfl
  unfold pktEncode
  rw [if_neg (fun hc => hc.2 h), if_neg hlen]
  simp only [overwrite_header, take_header, overwrite_withHeader, if_neg (not_not.mpr h), hcopy,
    hpay]
  by_cases h0 : crc32 payload ≠ 0
  · rw [if_pos ⟨h0, h⟩, crc2Field, if_pos h0, length_toBE]
  · rw [if_neg (fun hc => h0 hc.1), crc2Field, if_neg h0, overwrite_nil, List.length_nil,
      Nat.add_zero]

/-- **The encoder writes the segment**, whatever the buffer held. -/
theorem pktEncode_eq {pkt : Pkt} (h : Sendable pkt) (buf : List UInt8) {len : ℕ}
    (hcap : (wire pkt).length ≤ len) :
    pktEncode pkt buf len =
      ⟨.pktOk, stamped pkt, wire pkt ++ buf.drop (wire pkt).length, (wire pkt).length⟩ := by
  have hlen := h.length_eq
  have hwire := length_wire pkt
  have hcopy : copyPayload pkt (withHeader pkt buf) =
      header pkt ++ toBE 4 (crc32 (header pkt)).toNat ++ pkt.bytes ++
        (buf.drop 12).drop pkt.bytes.length :=
    copyPayload_eq h (header pkt ++ toBE 4 (crc32 (header pkt)).toNat) (buf.drop 12) (by simp)
  have hpay : slice (copyPayload pkt (withHeader pkt buf)) 12 pkt.length.toNat = pkt.bytes := by
    rw [hcopy, List.append_assoc, slice_append _ _ _ (by simp), ← hlen, List.take_left]
  have hbuf : overwrite (copyPayload pkt (withHeader pkt buf)) (12 + pkt.length.toNat)
      (crc2Field pkt.bytes) = wire pkt ++ buf.drop (wire pkt).length := by
    rw [hcopy, overwrite_append _ _ _ (by simp [hlen]; omega), List.drop_drop, List.drop_drop,
      hwire, wire, Nat.add_assoc]
  rw [pktEncode_of_tr_zero h.tr_eq buf (by omega) hpay, hbuf, hwire, ← hlen, stamped]

/-- A segment of `pkt` up to the payload, with `tail` behind it. -/
def wireThen (pkt : Pkt) (tail : List UInt8) : List UInt8 :=
  header pkt ++ (toBE 4 (crc32 (header pkt)).toNat ++ (pkt.bytes ++ tail))

theorem wire_append (pkt : Pkt) (rest : List UInt8) :
    wire pkt ++ rest = wireThen pkt (crc2Field pkt.bytes ++ rest) := by
  simp only [wire, wireThen, List.append_assoc]

theorem lengthField_wireThen (pkt : Pkt) (tail : List UInt8) :
    lengthField (wireThen pkt tail) = pkt.length := by
  have hslice : slice (wireThen pkt tail) 2 2 = toBE 2 pkt.length.toNat := by
    simp only [wireThen, header, List.append_assoc]
    exact slice_mid [headerByte pkt, pkt.seqnum] _ _ rfl (by simp)
  have hlt : pkt.length.toNat < 256 ^ 2 := pkt.length.toNat_lt
  rw [lengthField, hslice, ofBE_toBE, Nat.mod_eq_of_lt hlt, UInt16.ofNat_toNat]

/-- **What the decoder reads out of a segment**: the packet that was encoded, with the checksum
fields of the segment. Behind the payload, `tail` is read as the CRC2. -/
theorem parse_wireThen {pkt : Pkt} (h : Sendable pkt) (tail : List UInt8) (p : Pkt) :
    parse (wireThen pkt tail) p =
      { pkt with
        payload := some pkt.bytes
        crc1 := crc32 (header pkt)
        crc2 := UInt32.ofNat (ofBE (tail.take 4)) } := by
  have hlen := h.length_eq
  have hbyte0 : (wireThen pkt tail).getD 0 0 = headerByte pkt := rfl
  have hbyte1 : (wireThen pkt tail).getD 1 0 = pkt.seqnum := rfl
  have hts : slice (wireThen pkt tail) 4 4 = toLE 4 pkt.timestamp.toNat := by
    simp only [wireThen, header, List.append_assoc]
    rw [← List.append_assoc]
    exact slice_mid _ _ _ (by simp) (by simp)
  have hcrc1 : slice (wireThen pkt tail) 8 4 = toBE 4 (crc32 (header pkt)).toNat :=
    slice_mid _ _ _ (by simp) (by simp)
  have hpay : slice (wireThen pkt tail) 12 pkt.length.toNat = pkt.bytes := by
    rw [wireThen, ← List.append_assoc]
    exact slice_mid _ _ _ (by simp) hlen.symm
  have hcrc2 : slice (wireThen pkt tail) (12 + pkt.length.toNat) 4 = tail.take 4 := by
    rw [wireThen, ← List.append_assoc, ← List.append_assoc]
    exact slice_append _ _ _ (by simp [hlen]; omega)
  have hword : ∀ x : UInt32, UInt32.ofNat (x.toNat % 256 ^ 4) = x := by
    intro x
    have hlt : x.toNat < 256 ^ 4 := x.toNat_lt
    rw [Nat.mod_eq_of_lt hlt, UInt32.ofNat_toNat]
  have hfill : fill (wireThen pkt tail) p =
      { pkt with
        payload := some pkt.bytes
        crc1 := crc32 (header pkt)
        crc2 := UInt32.ofNat (ofBE (tail.take 4)) } := by
    unfold fill
    rw [lengthField_wireThen, hbyte0, hbyte1, hts, hcrc1, hpay, hcrc2, ofLE_toLE, ofBE_toBE,
      hword, hword, setHeaderByte_headerByte]
  rw [parse, hfill, clearCrc2, pktGetCrc2, if_neg (not_not.mpr h.tr_eq)]

/-- **The decoder's verdict on a segment**: only the CRC2 is left to check. -/
theorem pktDecode_wireThen {pkt : Pkt} (h : Sendable pkt) {tail : List UInt8} {len : ℕ}
    (hlen : 12 ≤ len)
    (hcrc2 : pkt.length ≠ 0 → UInt32.ofNat (ofBE (tail.take 4)) = crc32 pkt.bytes) (p : Pkt) :
    pktDecode (wireThen pkt tail) len p =
      (.pktOk, { pkt with
        payload := some pkt.bytes
        crc1 := crc32 (header pkt)
        crc2 := UInt32.ofNat (ofBE (tail.take 4)) }) := by
  have hparse := parse_wireThen h tail p
  have h8 : (wireThen pkt tail).take 8 = header pkt := take_header pkt _
  have hpay : slice (wireThen pkt tail) 12 pkt.length.toNat = pkt.bytes := by
    rw [wireThen, ← List.append_assoc]
    exact slice_mid _ _ _ (by simp) h.length_eq.symm
  rw [pktDecode_ok_iff _ hlen, lengthField_wireThen, hparse]
  refine ⟨h.length_le, ⟨h8 ▸ rfl, fun h0 => ?_⟩, ?_, rfl⟩
  · rw [pktGetCrc2, if_neg (not_not.mpr h.tr_eq), hpay]
    exact hcrc2 h0
  · unfold typeStatus
    rw [if_neg h.type_ne, if_neg (fun hc => hc.2 h.tr_eq)]

/-- The CRC2 field followed by zeros reads as the CRC2, written or not. -/
theorem crc2_of_crc2Field (payload : List UInt8) {k : ℕ} (hk : 4 ≤ k) :
    UInt32.ofNat (ofBE ((crc2Field payload ++ List.replicate k 0).take 4)) = crc32 payload := by
  unfold crc2Field
  split
  · have hlt : (crc32 payload).toNat < 256 ^ 4 := (crc32 payload).toNat_lt
    rw [List.take_left' (by simp), ofBE_toBE, Nat.mod_eq_of_lt hlt, UInt32.ofNat_toNat]
  · rename_i h0
    rw [List.nil_append, List.take_replicate, Nat.min_eq_left hk, not_not.mp h0]
    decide

end Segment

end Trtp
