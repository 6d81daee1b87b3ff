import Trtp.Packet.Codec

/-!
# The room `pkt_encode` asks for (`src/packet/packet.c:165-242`, `packet.h:86-98`)

On entry `*len` is the room in the buffer. `pkt_encode` compares it with `12 + length + 4 * TR`,
"header + payload + crc2". The four bytes of the CRC2 are counted for a packet with TR, which has
no CRC2, and left out for a packet without. The copies behind the test do not look at `*len`
again.

* `Spares pkt buf len i`: the call does not write at index `i`.
* `withinCapacity_iff`: **exactly when the encoder keeps to the room it was given**.
* `not_spares`: one to four bytes too few for the CRC2, and all of them are written behind the
  room.
* `not_withinCapacity_byte`: one byte of payload, room for 13 bytes, 17 are written.

Premise: the memory behind `buf` goes on for as long as the encoder may write, whatever `*len`
says; a list that ends sooner could not show the writes.
-/

namespace Trtp

open Trtp.Bytes

/-! ## What is copied where -/

/-- The payload as it is copied, nothing for `NULL`. -/
def copied (pkt : Pkt) : List UInt8 := ((pktGetPayload pkt).getD []).take pkt.length.toNat

theorem length_copied_le (pkt : Pkt) : (copied pkt).length ≤ pkt.length.toNat :=
  List.length_take_le _ _

theorem copyPayload_eq_overwrite (pkt : Pkt) (buf : List UInt8) :
    copyPayload pkt buf = overwrite buf 12 (copied pkt) := by
  unfold copyPayload copied
  cases pktGetPayload pkt with
  | none => simp
  | some payload => rfl

/-- The bytes the CRC2 is taken of: where the payload is `NULL`, what the buffer held. -/
def payloadBytes (pkt : Pkt) (buf : List UInt8) : List UInt8 :=
  slice (copyPayload pkt buf) 12 pkt.length.toNat

/-- A byte behind the payload is not among them. -/
theorem payloadBytes_set {pkt : Pkt} {buf : List UInt8} (hmem : 12 ≤ buf.length) {i : ℕ}
    (hi : 12 + pkt.length.toNat ≤ i) (b : UInt8) :
    payloadBytes pkt (buf.set i b) = payloadBytes pkt buf := by
  have hle := length_copied_le pkt
  unfold payloadBytes
  rw [copyPayload_eq_overwrite, copyPayload_eq_overwrite, overwrite_set hmem (by omega), slice,
    List.drop_set, if_neg (by omega), List.take_set_of_le (by omega), slice]

/-- The arguments go together: a truncated packet is a data packet without a payload. -/
def Consistent (pkt : Pkt) : Prop := pkt.tr = 0 ∨ pkt.type = .data ∧ pkt.length = 0

section Capacity

variable [Zlib]

theorem withHeader_eq_overwrite (pkt : Pkt) (buf : List UInt8) :
    withHeader pkt buf = overwrite buf 0 (header pkt ++ toBE 4 (crc32 (header pkt)).toNat) := by
  rw [overwrite_zero, List.length_append, length_header, length_toBE, withHeader]

theorem length_withHeader (pkt : Pkt) {buf : List UInt8} (hmem : 12 ≤ buf.length) :
    (withHeader pkt buf).length = buf.length := by
  rw [withHeader_eq_overwrite, length_overwrite]
  rw [List.length_append, length_header, length_toBE]
  omega

theorem getElem?_withHeader (pkt : Pkt) (buf : List UInt8) {i : ℕ} (hi : 12 ≤ i) :
    (withHeader pkt buf)[i]? = buf[i]? := by
  rw [withHeader_eq_overwrite]
  apply getElem?_overwrite_of_le (Nat.zero_le _)
  rw [List.length_append, length_header, length_toBE]
  omega

/-- The header does not reach into the payload. -/
theorem payloadBytes_withHeader (pkt : Pkt) {buf : List UInt8} (hmem : 12 ≤ buf.length) :
    slice (copyPayload pkt (withHeader pkt buf)) 12 pkt.length.toNat = payloadBytes pkt buf := by
  have hlen := length_withHeader pkt hmem
  have hdrop : (withHeader pkt buf).drop (12 + (copied pkt).length) =
      buf.drop (12 + (copied pkt).length) := by
    apply List.ext_getElem?
    intro i
    rw [List.getElem?_drop, List.getElem?_drop, getElem?_withHeader _ _ (by omega)]
  unfold payloadBytes
  rw [copyPayload_eq_overwrite, copyPayload_eq_overwrite, slice, slice,
    drop_overwrite (by omega), drop_overwrite hmem, hdrop]

/-- The bytes of a frame: the header, the payload, and the CRC2 unless it is 0. A truncated packet
is a header. -/
def frameSize (pkt : Pkt) (buf : List UInt8) : ℕ :=
  if pkt.tr = 0 then 12 + pkt.length.toNat + (crc2Field (payloadBytes pkt buf)).length else 12

/-- The call does not write at index `i`: whatever stands there is still there. -/
def Spares (pkt : Pkt) (buf : List UInt8) (len i : ℕ) : Prop :=
  ∀ b : UInt8, (pktEncode pkt (buf.set i b) len).buf[i]? = (buf.set i b)[i]?

/-- The contract of `*len`: nothing is written behind the room, success means that the frame is in
the room, and `E_NOMEM` that a packet that could be encoded has a frame that is not. -/
structure WithinCapacity (pkt : Pkt) (buf : List UInt8) (len : ℕ) : Prop where
  inside : ∀ i, len ≤ i → Spares pkt buf len i
  ok : (pktEncode pkt buf len).status = .pktOk →
    frameSize pkt buf ≤ len ∧ (pktEncode pkt buf len).len ≤ len
  nomem : (pktEncode pkt buf len).status = .eNomem ↔ Consistent pkt ∧ len < frameSize pkt buf

/-- The capacities at which the formula of the code does no harm. Without TR it must not matter
that the CRC2 is left out, with TR it must not matter that one is counted. -/
def FormulaFits (pkt : Pkt) (buf : List UInt8) (len : ℕ) : Prop :=
  (pkt.tr = 0 →
    len < 12 + pkt.length.toNat ∨ 16 + pkt.length.toNat ≤ len ∨
      crc32 (payloadBytes pkt buf) = 0) ∧
  (pkt.tr ≠ 0 →
    pkt.type ≠ .data ∨ 16 + pkt.length.toNat ≤ len ∨ pkt.length = 0 ∧ len < 12)

instance (pkt : Pkt) (buf : List UInt8) (len : ℕ) : Decidable (FormulaFits pkt buf len) :=
  inferInstanceAs (Decidable ((_ → _) ∧ (_ → _)))

/-! ## The ways through the encoder -/

variable {pkt : Pkt} {buf : List UInt8} {len : ℕ}

theorem pktEncode_of_truncated_reply (h : pkt.type ≠ .data ∧ pkt.tr ≠ 0) (buf : List UInt8)
    (len : ℕ) : pktEncode pkt buf len = ⟨.eUnconsistent, pkt, buf, len⟩ :=
  if_pos h

theorem pktEncode_of_nomem (h : ¬ (pkt.type ≠ .data ∧ pkt.tr ≠ 0)) (buf : List UInt8)
    (hlen : len < 3 * 4 + pkt.length.toNat + 4 * pkt.tr) :
    pktEncode pkt buf len = ⟨.eNomem, pkt, buf, len⟩ := by
  unfold pktEncode
  rw [if_neg h, if_pos hlen]

/-- With TR only the header is written, also when the payload turns out not to be empty. -/
theorem pktEncode_of_truncated (htype : pkt.type = .data) (htr : pkt.tr ≠ 0) (buf : List UInt8)
    (hlen : ¬ len < 3 * 4 + pkt.length.toNat + 4 * pkt.tr) :
    pktEncode pkt buf len =
      if pkt.length ≠ 0 then
        ⟨.eUnconsistent, { pkt with crc1 := crc32 (header pkt) }, withHeader pkt buf, len⟩
      else ⟨.pktOk, { pkt with crc1 := crc32 (header pkt) }, withHeader pkt buf, 12⟩ := by
  unfold pktEncode
  rw [if_neg (fun hc => hc.1 htype), if_neg hlen]
  simp only [overwrite_header, take_header, overwrite_withHeader, if_pos htr]

/-- A call that gives up at once writes nothing: only its status counts. -/
theorem withinCapacity_iff_of_stop {status : PktStatusCode}
    (hstop : ∀ buf, pktEncode pkt buf len = ⟨status, pkt, buf, len⟩) (hne : status ≠ .pktOk) :
    WithinCapacity pkt buf len ↔
      (status = .eNomem ↔ Consistent pkt ∧ len < frameSize pkt buf) := by
  have hstatus : (pktEncode pkt buf len).status = status := by rw [hstop]
  constructor
  · intro h
    rw [← hstatus]
    exact h.nomem
  · intro h
    refine ⟨fun i _ b => by rw [hstop], fun hc => ?_, ?_⟩
    · exact absurd (hstatus.symm.trans hc) hne
    · rw [hstatus]
      exact h

theorem pktEncode_frame (htr : pkt.tr = 0) (hroom : 12 + pkt.length.toNat ≤ len)
    (hmem : 12 + pkt.length.toNat ≤ buf.length) :
    pktEncode pkt buf len =
      ⟨.pktOk, { pkt with crc1 := crc32 (header pkt), crc2 := crc32 (payloadBytes pkt buf) },
        overwrite (copyPayload pkt (withHeader pkt buf)) (12 + pkt.length.toNat)
          (crc2Field (payloadBytes pkt buf)), frameSize pkt buf⟩ := by
  rw [pktEncode_of_tr_zero htr buf hroom (payloadBytes_withHeader pkt (by omega)), frameSize,
    if_pos htr]

theorem length_copyPayload_withHeader (hmem : 12 + pkt.length.toNat ≤ buf.length) :
    (copyPayload pkt (withHeader pkt buf)).length = buf.length := by
  have hlen := length_withHeader pkt (show 12 ≤ buf.length by omega)
  have hle := length_copied_le pkt
  rw [copyPayload_eq_overwrite, length_overwrite (by omega), hlen]

/-- Behind the frame nothing changes. -/
theorem getElem?_pktEncode_behind (htr : pkt.tr = 0) (hroom : 12 + pkt.length.toNat ≤ len)
    (hmem : 12 + pkt.length.toNat ≤ buf.length) {i : ℕ} (hi : frameSize pkt buf ≤ i) :
    (pktEncode pkt buf len).buf[i]? = buf[i]? := by
  have hlen := length_withHeader pkt (show 12 ≤ buf.length by omega)
  have hbody := length_copyPayload_withHeader hmem
  have hle := length_copied_le pkt
  rw [frameSize, if_pos htr] at hi
  rw [pktEncode_frame htr hroom hmem]
  simp only
  rw [getElem?_overwrite_of_le (by omega) hi, copyPayload_eq_overwrite,
    getElem?_overwrite_of_le (by omega) (by omega), getElem?_withHeader _ _ (by omega)]

/-- The CRC2 goes behind the payload, whatever the room. -/
theorem getElem?_pktEncode_crc2 (htr : pkt.tr = 0) (hroom : 12 + pkt.length.toNat ≤ len)
    (hmem : 12 + pkt.length.toNat ≤ buf.length) {k : ℕ}
    (hk : k < (crc2Field (payloadBytes pkt buf)).length) :
    (pktEncode pkt buf len).buf[12 + pkt.length.toNat + k]? =
      (crc2Field (payloadBytes pkt buf))[k]? := by
  have hbody := length_copyPayload_withHeader hmem
  rw [pktEncode_frame htr hroom hmem]
  exact getElem?_overwrite_add (by omega) hk

/-! ## The room -/

theorem length_crc2Field_of_ne {payload : List UInt8} (h : crc32 payload ≠ 0) :
    (crc2Field payload).length = 4 := by
  rw [crc2Field, if_pos h, length_toBE]

/-- **Too little room for the CRC2 alone**: the call succeeds, and the bytes of the CRC2 that do
not fit are written behind the room. -/
theorem not_spares (htr : pkt.tr = 0) (hroom : 12 + pkt.length.toNat ≤ len)
    (hmem : 16 + pkt.length.toNat ≤ buf.length) {i : ℕ} (hlen : len ≤ i)
    (hi : i < frameSize pkt buf) :
    (pktEncode pkt buf len).status = .pktOk ∧ ¬ Spares pkt buf len i := by
  have h4 := length_crc2Field_le (payloadBytes pkt buf)
  rw [frameSize, if_pos htr] at hi
  obtain ⟨k, rfl⟩ := Nat.exists_eq_add_of_le (hroom.trans hlen)
  have hk : k < (crc2Field (payloadBytes pkt buf)).length := by omega
  refine ⟨by rw [pktEncode_frame htr hroom (by omega)], fun hspares => ?_⟩
  -- a byte other than the one of the CRC2 does not survive
  have hkept := hspares ((crc2Field (payloadBytes pkt buf))[k] + 1)
  have hset : ∀ b, payloadBytes pkt (buf.set (12 + pkt.length.toNat + k) b) =
      payloadBytes pkt buf := payloadBytes_set (by omega) (by omega)
  rw [getElem?_pktEncode_crc2 htr hroom (by rw [List.length_set]; omega)
    (by rw [hset]; exact hk), hset, List.getElem?_eq_getElem hk,
    List.getElem?_set_self (by omega), Option.some.injEq] at hkept
  exact absurd hkept (by simp)

/-- Without TR: the formula counts no CRC2. -/
theorem withinCapacity_iff_of_tr_zero (htr : pkt.tr = 0)
    (hmem : 16 + pkt.length.toNat ≤ buf.length) :
    WithinCapacity pkt buf len ↔
      len < 12 + pkt.length.toNat ∨ frameSize pkt buf ≤ len := by
  have hsize : frameSize pkt buf =
      12 + pkt.length.toNat + (crc2Field (payloadBytes pkt buf)).length := if_pos htr
  by_cases hroom : 12 + pkt.length.toNat ≤ len
  · have hframe := @pktEncode_frame _ pkt buf len htr hroom (by omega)
    constructor
    · intro h
      exact Or.inr (h.ok (by rw [hframe])).1
    · intro h
      have hfits : frameSize pkt buf ≤ len := h.resolve_left (by omega)
      refine ⟨fun i hi b => ?_, fun _ => ⟨hfits, ?_⟩, ?_⟩
      · have hset : frameSize pkt (buf.set i b) = frameSize pkt buf := by
          rw [hsize, frameSize, if_pos htr, payloadBytes_set (by omega) (by omega)]
        exact getElem?_pktEncode_behind htr hroom (by rw [List.length_set]; omega) (by omega)
      · rw [hframe]
        exact hfits
      · rw [hframe]
        constructor
        · exact fun hc => absurd hc (by simp)
        · exact fun hc => absurd hfits (by omega)
  · have hstop : ∀ buf, pktEncode pkt buf len = ⟨.eNomem, pkt, buf, len⟩ := by
      intro buf
      apply pktEncode_of_nomem (fun hc => hc.2 htr)
      rw [htr]
      simp only [Fin.isValue, Fin.val_zero]
      omega
    rw [withinCapacity_iff_of_stop hstop (by decide)]
    constructor
    · exact fun _ => Or.inl (by omega)
    · exact fun _ => ⟨fun _ => ⟨Or.inl htr, by omega⟩, fun _ => rfl⟩

/-- With TR, on a data packet: the formula counts a CRC2, and looks at the room before it looks at
the length. -/
theorem withinCapacity_iff_of_truncated (htype : pkt.type = .data) (htr : pkt.tr ≠ 0) :
    WithinCapacity pkt buf len ↔
      16 + pkt.length.toNat ≤ len ∨ pkt.length = 0 ∧ len < 12 := by
  have hsize : frameSize pkt buf = 12 := if_neg htr
  have hone : 4 * (pkt.tr : ℕ) = 4 := by
    have := Fin.val_ne_zero_iff.mpr htr
    omega
  have hcons : Consistent pkt ↔ pkt.length = 0 :=
    ⟨fun h => (h.resolve_left htr).2, fun h => Or.inr ⟨htype, h⟩⟩
  by_cases hroom : 16 + pkt.length.toNat ≤ len
  · have hwrite : ∀ buf, pktEncode pkt buf len = _ := fun buf =>
      pktEncode_of_truncated htype htr buf (by omega)
    refine ⟨fun _ => Or.inl hroom, fun _ => ⟨fun i hi b => ?_, ?_, ?_⟩⟩
    · rw [hwrite]
      split <;> exact getElem?_withHeader _ _ (by omega)
    · rw [hwrite, hsize]
      split
      · exact fun hc => absurd hc (by simp)
      · exact fun _ => ⟨by omega, by simp only; omega⟩
    · rw [hwrite, hsize]
      constructor
      · split <;> exact fun hc => absurd hc (by simp)
      · exact fun hc => absurd hc.2 (by omega)
  · have hstop : ∀ buf, pktEncode pkt buf len = ⟨.eNomem, pkt, buf, len⟩ := fun buf =>
      pktEncode_of_nomem (fun hc => hc.1 htype) buf (by omega)
    rw [withinCapacity_iff_of_stop hstop (by decide), hcons, hsize]
    constructor
    · exact fun h => Or.inr (h.mp rfl)
    · exact fun h => ⟨fun _ => h.resolve_left hroom, fun _ => rfl⟩

/-- With TR, on a reply: refused before anything is written. -/
theorem withinCapacity_of_truncated_reply (h : pkt.type ≠ .data ∧ pkt.tr ≠ 0) :
    WithinCapacity pkt buf len := by
  have hstop : ∀ buf, pktEncode pkt buf len = ⟨.eUnconsistent, pkt, buf, len⟩ := fun buf =>
    pktEncode_of_truncated_reply h buf len
  refine (withinCapacity_iff_of_stop hstop (by decide)).mpr ?_
  constructor
  · exact fun hc => absurd hc (by decide)
  · rintro ⟨hc | hc, -⟩
    · exact absurd hc h.2
    · exact absurd hc.1 h.1

/-- **When the encoder keeps to the room it was given**: exactly at the capacities at which the
formula does no harm. -/
theorem withinCapacity_iff (pkt : Pkt) (buf : List UInt8) (len : ℕ)
    (hmem : 16 + pkt.length.toNat ≤ buf.length) :
    WithinCapacity pkt buf len ↔ FormulaFits pkt buf len := by
  unfold FormulaFits
  by_cases htr : pkt.tr = 0
  · have hsize : len < 12 + pkt.length.toNat ∨ frameSize pkt buf ≤ len ↔
        len < 12 + pkt.length.toNat ∨ 16 + pkt.length.toNat ≤ len ∨
          crc32 (payloadBytes pkt buf) = 0 := by
      rw [frameSize, if_pos htr]
      by_cases hcrc : crc32 (payloadBytes pkt buf) = 0
      · rw [crc2Field, if_neg (not_not.mpr hcrc), List.length_nil]
        simp only [hcrc, or_true, iff_true]
        omega
      · rw [length_crc2Field_of_ne hcrc]
        simp only [hcrc, or_false]
        omega
    rw [withinCapacity_iff_of_tr_zero htr hmem, hsize]
    exact ⟨fun h => ⟨fun _ => h, fun hc => absurd htr hc⟩, fun h => h.1 htr⟩
  · by_cases htype : pkt.type = .data
    · rw [withinCapacity_iff_of_truncated htype htr]
      constructor
      · exact fun h => ⟨fun hc => absurd hc htr, fun _ => Or.inr h⟩
      · exact fun h => (h.2 htr).resolve_left (not_not.mpr htype)
    · exact ⟨fun _ => ⟨fun hc => absurd hc htr, fun _ => Or.inl htype⟩,
        fun _ => withinCapacity_of_truncated_reply ⟨htype, htr⟩⟩

end Capacity

section Bytes

open Zlib.Standard

/-- A data packet of one byte. -/
def bytePkt : Pkt := { pktNew with type := .data, length := 1, payload := some [200] }

/-- Room for the header and the payload is not enough for the CRC2, room for all is. -/
theorem withinCapacity_byte :
    (WithinCapacity bytePkt (List.replicate 17 0) 13 ↔
      FormulaFits bytePkt (List.replicate 17 0) 13) ∧
    WithinCapacity bytePkt (List.replicate 17 0) 17 :=
  ⟨withinCapacity_iff _ _ _ (by decide), (withinCapacity_iff _ _ _ (by decide)).mpr (by decide)⟩

/-- 17 bytes in room for 13: the four of the CRC2 are behind it. -/
theorem not_withinCapacity_byte : ¬ WithinCapacity bytePkt (List.replicate 17 0) 13 := by
  intro h
  exact (not_spares rfl (by decide) (by decide) (by decide) (by decide)).2
    (h.inside 16 (by decide))

example : (pktEncode bytePkt (List.replicate 17 0) 13).status = .pktOk ∧
    (pktEncode bytePkt (List.replicate 17 0) 13).len = 17 := by decide

end Bytes

end Trtp
