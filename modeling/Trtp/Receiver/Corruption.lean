import Trtp.Packet.Coherence
import Trtp.Receiver.Step

/-!
# Damage within four bytes of one field

A segment whose changed bytes lie within four consecutive bytes of one region (the eight header
bytes, the CRC1, the payload, the CRC2) is always refused. The CRC-32 catches a burst of 32 bits
in the header and in the payload (`Zlib.Standard.crc32_ne_of_burst`), and a changed checksum no
longer matches. Damage to the header is caught before the length or the TR bit it may have changed
are put to use.

* `not_fits_of_damage`: the checksums of the damaged segment do not hold.
* `receive_damaged`: **the receiver keeps its state and sends one NACK** with `expectedSeqnum`.
-/

namespace Trtp

open Trtp.Bytes

/-- `data'` is `data` with some bytes changed, all of them in `[lo, hi)` and within four
consecutive bytes from `start`. -/
structure Damage (data data' : List UInt8) (lo hi start : ℕ) : Prop where
  length_eq : data'.length = data.length
  ne : data' ≠ data
  inside : ∀ i, data'[i]? ≠ data[i]? → lo ≤ i ∧ i < hi ∧ start ≤ i ∧ i < start + 4

variable {data data' : List UInt8} {lo hi start : ℕ}

theorem Damage.getElem?_eq (h : Damage data data' lo hi start) {i : ℕ}
    (hi' : ¬ (lo ≤ i ∧ i < hi ∧ start ≤ i ∧ i < start + 4)) : data'[i]? = data[i]? :=
  not_not.mp (mt (h.inside i) hi')

theorem Damage.append (h : Damage data data' lo hi start) (tail : List UInt8) :
    Damage (data ++ tail) (data' ++ tail) lo hi start where
  length_eq := by rw [List.length_append, List.length_append, h.length_eq]
  ne := fun heq => h.ne (List.append_cancel_right heq)
  inside := by
    intro i hne
    apply h.inside
    intro heq
    apply hne
    rw [List.getElem?_append, List.getElem?_append, h.length_eq, heq]

theorem getElem?_slice (data : List UInt8) (off n i : ℕ) :
    (slice data off n)[i]? = if i < n then data[off + i]? else none := by
  rw [slice, List.getElem?_take]
  simp only [List.getElem?_drop]

/-- A field in front of or behind the region is not touched. -/
theorem Damage.slice_eq (h : Damage data data' lo hi start) {off n : ℕ}
    (hout : off + n ≤ lo ∨ hi ≤ off) : slice data' off n = slice data off n := by
  apply List.ext_getElem?
  intro i
  rw [getElem?_slice, getElem?_slice]
  split
  · exact h.getElem?_eq (by omega)
  · rfl

/-- Some byte of the region is touched. -/
theorem Damage.lo_lt (h : Damage data data' lo hi start) : lo < hi := by
  by_contra hle
  refine h.ne (List.ext_getElem? fun i => h.getElem?_eq (by omega))

theorem Damage.slice_ne (h : Damage data data' lo hi start) :
    slice data' lo (hi - lo) ≠ slice data lo (hi - lo) := by
  intro heq
  refine h.ne (List.ext_getElem? fun i => ?_)
  by_cases hin : lo ≤ i ∧ i < hi
  · have hget := congrArg (fun d => d[i - lo]?) heq
    simp only [getElem?_slice] at hget
    rwa [if_pos (by omega), if_pos (by omega), show lo + (i - lo) = i by omega] at hget
  · exact h.getElem?_eq (by omega)

open Zlib.Standard in
/-- **The checksum of the region changes.** -/
theorem Damage.crc32_ne (h : Damage data data' lo hi start) :
    crc32 (slice data' lo (hi - lo)) ≠ crc32 (slice data lo (hi - lo)) := by
  have hlen := h.length_eq
  apply Zlib.Standard.crc32_ne_of_burst (start - lo)
  · simp only [slice, List.length_take, List.length_drop, hlen]
  · apply List.ext_getElem?
    intro i
    rw [List.getElem?_take, List.getElem?_take, getElem?_slice, getElem?_slice]
    split
    · rw [h.getElem?_eq (by omega)]
    · rfl
  · apply List.ext_getElem?
    intro i
    rw [List.getElem?_drop, List.getElem?_drop, getElem?_slice, getElem?_slice]
    rw [h.getElem?_eq (by omega)]
  · exact h.slice_ne

/-! ## Damaged segments -/

/-- The regions of a segment of `n` bytes with `length` bytes of payload: header, CRC1, payload,
CRC2. -/
def regions (length n : ℕ) : List (ℕ × ℕ) :=
  [(0, 8), (8, 12), (12, 12 + length), (12 + length, n)]

section Segment

variable [Zlib]

/-- A segment in the cleared buffer, as its fields are read. -/
structure ReadsAs (data : List UInt8) (pkt : Pkt) : Prop where
  length_eq : lengthField data = pkt.length
  fits : Fits data
  tr_eq : trField data = false

theorem readsAs_wire {pkt : Pkt} (h : Sendable pkt) :
    ReadsAs (wire pkt ++ List.replicate (528 - (wire pkt).length) 0) pkt := by
  have hlen := length_wire pkt
  have hok := (decode_ok_iff _ (by omega) _ _).mp (pktDecode_wire_zeros h pktNew)
  refine ⟨by rw [wire_append, lengthField_wireThen], hok.1, ?_⟩
  rw [Bool.eq_false_iff]
  intro htr
  have hpkt := congrArg Pkt.tr hok.2.2
  exact (trField_eq _ pktNew).mp htr (hpkt.symm.trans h.tr_eq)

end Segment

open Zlib.Standard in
theorem not_fits_of_header (hd : Fits data) (h : Damage data data' 0 8 start) : ¬ Fits data' := by
  intro hf
  have hcrc1 := hf.crc1_eq
  rw [h.slice_eq (Or.inr (by decide)), hd.crc1_eq] at hcrc1
  exact h.crc32_ne hcrc1.symm

open Zlib.Standard in
theorem not_fits_of_crc1 (hlen : 12 ≤ data.length) (hd : Fits data)
    (h : Damage data data' 8 12 start) : ¬ Fits data' := by
  intro hf
  have h8 : slice data' 0 8 = slice data 0 8 := h.slice_eq (Or.inl (by decide))
  have hcrc1 := hf.crc1_eq
  rw [show data'.take 8 = data.take 8 from h8, ← hd.crc1_eq] at hcrc1
  have hlen' := h.length_eq
  exact h.slice_ne
    (ofBE_word_injective (length_slice (by omega)) (length_slice (by omega)) hcrc1)

theorem Damage.getD_zero (h : Damage data data' lo hi start) (hlo : 0 < lo) :
    data'.getD 0 0 = data.getD 0 0 := by
  rw [List.getD_eq_getElem?_getD, List.getD_eq_getElem?_getD, h.getElem?_eq (by omega)]

/-- Behind the CRC1, the header is the old one. -/
theorem Damage.sameHeader (h : Damage data data' lo hi start) (hlo : 12 ≤ lo) :
    SameHeader data' data := by
  have h0 := h.getD_zero (by omega)
  refine ⟨by rw [trField, trField, h0], by rw [typeField, typeField, h0], ?_⟩
  rw [lengthField, lengthField, h.slice_eq (Or.inl (by omega))]

open Zlib.Standard in
theorem not_fits_of_payload {length : ℕ} (hlen : (lengthField data).toNat = length)
    (hd : Fits data) (h : Damage data data' 12 (12 + length) start) : ¬ Fits data' := by
  intro hf
  have hhead := h.sameHeader (le_refl 12)
  have hlt := h.lo_lt
  have h0 : lengthField data ≠ 0 := by
    intro hc
    rw [hc, UInt16.toNat_zero] at hlen
    omega
  have hread : crc2Read data' = crc2Read data := by
    rw [crc2Read, crc2Read, hhead.tr_eq, hhead.length_eq, h.slice_eq (Or.inr (by omega))]
  have hcrc2 := hf.crc2_eq (hhead.length_eq.symm ▸ h0)
  rw [hread, hd.crc2_eq h0, hhead.length_eq, hlen] at hcrc2
  have hne := h.crc32_ne
  rw [show 12 + length - 12 = length by omega] at hne
  exact hne hcrc2.symm

open Zlib.Standard in
theorem not_fits_of_crc2 {length : ℕ} (hlen : (lengthField data).toNat = length)
    (hsize : 12 + length + 4 ≤ data.length) (h0 : length ≠ 0) (htr : trField data = false)
    (hd : Fits data) (h : Damage data data' (12 + length) (12 + length + 4) start) :
    ¬ Fits data' := by
  intro hf
  have hhead := h.sameHeader (by omega)
  have hL0 : lengthField data ≠ 0 := by
    intro hc
    rw [hc, UInt16.toNat_zero] at hlen
    exact h0 hlen.symm
  have hcrc2 := hf.crc2_eq (hhead.length_eq.symm ▸ hL0)
  have hold := hd.crc2_eq hL0
  have hlen' := h.length_eq
  rw [hhead.length_eq, h.slice_eq (Or.inl (by omega)), ← hold, crc2Read, crc2Read,
    if_neg (by rw [hhead.tr_eq, htr]; decide), if_neg (by rw [htr]; decide), hhead.length_eq,
    hlen] at hcrc2
  have hne := h.slice_ne
  rw [show 12 + length + 4 - (12 + length) = 4 by omega] at hne
  exact hne (ofBE_word_injective (length_slice (by omega)) (length_slice (by omega)) hcrc2)

open Zlib.Standard in
/-- **No checksum survives**, whichever region was hit. -/
theorem not_fits_of_damage {pkt : Pkt} (h : Sendable pkt) {segment' : List UInt8}
    (hregion : (lo, hi) ∈ regions pkt.bytes.length (wire pkt).length)
    (hd : Damage (wire pkt) segment' lo hi start) :
    ¬ Fits (segment' ++ List.replicate (528 - (wire pkt).length) 0) := by
  have hread := readsAs_wire h
  have hbytes := h.length_eq
  have hwire := length_wire pkt
  have hle := length_wire_le h
  have hL : (lengthField (wire pkt ++ List.replicate (528 - (wire pkt).length) 0)).toNat =
      pkt.bytes.length := by rw [hread.length_eq, hbytes]
  have hfull := hd.append (List.replicate (528 - (wire pkt).length) 0)
  have hsize : (wire pkt ++ List.replicate (528 - (wire pkt).length) 0).length = 528 := by
    rw [List.length_append, List.length_replicate]
    omega
  simp only [regions, List.mem_cons, Prod.mk.injEq, List.not_mem_nil, or_false] at hregion
  obtain ⟨rfl, rfl⟩ | ⟨rfl, rfl⟩ | ⟨rfl, rfl⟩ | ⟨rfl, rfl⟩ := hregion
  · exact not_fits_of_header hread.fits hfull
  · exact not_fits_of_crc1 (by omega) hread.fits hfull
  · exact not_fits_of_payload hL hread.fits hfull
  · -- a CRC2 that was hit is there: four bytes, and a payload in front of them
    have hlt := hd.lo_lt
    have hfield : (crc2Field pkt.bytes).length = 4 := by
      unfold crc2Field at hwire ⊢
      split at hwire
      · rename_i hne
        rw [if_pos hne, length_toBE]
      · simp only [List.length_nil] at hwire
        omega
    have h0 : pkt.bytes.length ≠ 0 := by
      intro hc
      rw [List.length_eq_zero_iff.mp hc, crc2Field_nil] at hfield
      exact absurd hfield (by decide)
    rw [hwire, hfield] at hfull
    rw [hwire, hfield] at hread hL hsize ⊢
    exact not_fits_of_crc2 hL (by omega) h0 hread.tr_eq hread.fits hfull

open Zlib.Standard in
/-- **Damage within four bytes of one region costs one NACK and nothing else.** For the segment
`pkt_encode` makes of any packet, whatever its buffer held. -/
theorem receive_damaged {pkt : Pkt} (h : Sendable pkt) (buf : Buffer) {segment' : List UInt8}
    (hregion : (lo, hi) ∈ regions pkt.bytes.length (pktEncode pkt buf.1 528).len)
    (hd : Damage (pktEncode pkt buf.1 528).segment segment' lo hi start) :
    (pktDecode (readInto cleared 528 segment') segment'.length pktNew).1 ≠ .pktOk ∧
      ∀ dangling r, ∃ nack : Pkt, nack.type = .nack ∧ nack.seqnum = r.expectedSeqnum ∧
        receive dangling r segment' = (r, [wire nack]) := by
  have hle := length_wire_le h
  rw [segment_pktEncode h buf.1 hle] at hd
  rw [pktEncode_eq h buf.1 hle] at hregion
  have hlen := hd.length_eq
  have hwire := length_wire pkt
  have hbuf : readInto cleared 528 segment' =
      segment' ++ List.replicate (528 - (wire pkt).length) 0 := by
    rw [readInto_cleared (by omega), hlen]
  have hbad : (pktDecode (readInto cleared 528 segment') segment'.length pktNew).1 ≠ .pktOk := by
    intro hok
    rw [hbuf] at hok
    exact not_fits_of_damage h hregion hd
      ((decode_ok_iff _ (by omega) _ _).mp (Prod.ext hok rfl)).1
  refine ⟨hbad, fun dangling r => ?_⟩
  rw [← Nat.min_eq_right (show segment'.length ≤ 528 by omega)] at hbad
  obtain ⟨ts, hrec⟩ := receive_of_rejected hbad dangling r
  refine ⟨replyPkt r.window .nack ts r.expectedSeqnum, replyPkt_type .., replyPkt_seqnum .., ?_⟩
  rw [hrec]

/-- The segment of `onePayloadByte`, as `pkt_encode` leaves it in a cleared buffer. -/
def oneByteSegment [Zlib] : List UInt8 := (pktEncode onePayloadByte cleared.1 528).segment

open Zlib.Standard in
/-- Its payload byte changed on the way. -/
theorem receive_damaged_one :
    ∃ nack : Pkt, nack.type = .nack ∧ nack.seqnum = 0 ∧
      receive pktNew Receiver.start (oneByteSegment.set 12 0) = (Receiver.start, [wire nack]) := by
  have hsend : Sendable onePayloadByte := ⟨by decide, by decide, by decide, by decide⟩
  have hseg : oneByteSegment = wire onePayloadByte :=
    segment_pktEncode hsend _ (length_wire_le hsend)
  have hget : (wire onePayloadByte)[12]? = some 120 := by decide
  have hdamage : Damage oneByteSegment (oneByteSegment.set 12 0) 12 13 12 := by
    refine ⟨List.length_set, ?_, fun i hne => ?_⟩
    · intro heq
      have h12 := congrArg (fun d : List UInt8 => d[12]?) heq
      rw [hseg] at h12
      simp only [List.getElem?_set, hget] at h12
      revert h12
      decide
    · by_contra hout
      exact hne (List.getElem?_set_ne (by omega))
  have hregion : (12, 13) ∈ regions onePayloadByte.bytes.length
      (pktEncode onePayloadByte cleared.1 528).len := by
    simp [regions, onePayloadByte, Pkt.bytes]
  exact (receive_damaged hsend cleared hregion hdamage).2 pktNew Receiver.start

end Trtp
