import Trtp.Packet.RoundTrip

/-!
# Which received bytes decide the verdict (`src/packet/packet.c:40-163`, `packet.h:64-84`)

`packet.h` says that `pkt_decode` checks the length field and the TR bit against the number of
bytes received. The code looks at `len` twice, for `len == 0` and `len < 12`, and then reads at
the offsets the header gives. So a datagram with bytes behind its CRC2 is accepted, and one that
is cut short is judged by what the buffer held before.

* `status_of_fits`, `status_of_not_fits`: the verdict from the raw bytes, by length field and
  checksums (`Fits`), then type and TR bit.
* `coherent_iff`: **the size is checked and only received bytes matter exactly when either no
  completion of the received bytes can pass the checksums, or the datagram covers every byte the
  checksums read and is refused for its type or has exactly the size of its header**.
* `not_coherent_sizes`: a whole segment with one byte more, and its first 12 bytes alone.
-/

namespace Trtp

open Trtp.Bytes

/-! ## The header's view of a buffer -/

/-- The type bits of a buffer. -/
def typeField (data : List UInt8) : PType := PType.ofBits ((data.getD 0 0).toNat / 64)

/-- The TR bit of a buffer. -/
def trField (data : List UInt8) : Bool := (data.getD 0 0).toNat / 32 % 2 = 1

/-- The size the header implies. -/
def impliedSize (data : List UInt8) : ℕ :=
  if trField data ∨ lengthField data = 0 then 12 else 16 + (lengthField data).toNat

/-- The bytes the checksums read: a truncated packet has its CRC2 taken for 0. -/
def coveredSize (data : List UInt8) : ℕ :=
  if lengthField data = 0 then 12
  else if trField data then 12 + (lengthField data).toNat
  else 16 + (lengthField data).toNat

/-- The verdict on type and TR bit. -/
def headerStatus (data : List UInt8) : PktStatusCode :=
  if typeField data = .unset then .eType
  else if typeField data ≠ .data ∧ trField data then .eUnconsistent
  else .pktOk

theorem headerStatus_ne_crc (data : List UInt8) : headerStatus data ≠ .eCrc := by
  unfold headerStatus
  split
  · decide
  · split <;> decide

theorem trField_eq (data : List UInt8) (pkt : Pkt) :
    trField data = true ↔ (fill data pkt).tr ≠ 0 := by
  have hlt : (data.getD 0 0).toNat / 32 % 2 < 2 := Nat.mod_lt _ (by decide)
  unfold trField fill setHeaderByte
  simp only [decide_eq_true_eq, ne_eq, Fin.ext_iff, Fin.val_zero]
  omega

theorem typeStatus_parse (data : List UInt8) (pkt : Pkt) :
    typeStatus (parse data pkt) = headerStatus data := by
  have htr := trField_eq data pkt
  have hparse : (parse data pkt).tr = (fill data pkt).tr := rfl
  have htype : (parse data pkt).type = typeField data := rfl
  unfold typeStatus headerStatus
  rw [htype, hparse]
  by_cases h : trField data = true
  · simp only [h, htr.mp h, ne_eq, not_false_eq_true]
  · have h0 : ¬ (fill data pkt).tr ≠ 0 := fun hc => h (htr.mpr hc)
    simp only [h, h0, Bool.false_eq_true]

/-- The CRC2 the decoder compares with. -/
def crc2Read (data : List UInt8) : UInt32 :=
  if trField data then 0
  else UInt32.ofNat (ofBE (slice data (12 + (lengthField data).toNat) 4))

theorem crc2Read_eq (data : List UInt8) (pkt : Pkt) :
    pktGetCrc2 (parse data pkt) = crc2Read data := by
  have htr := trField_eq data pkt
  have hget : pktGetCrc2 (parse data pkt) =
      if (fill data pkt).tr ≠ 0 then 0 else (fill data pkt).crc2 := by
    unfold parse clearCrc2 pktGetCrc2
    split <;> rfl
  rw [hget]
  unfold crc2Read
  by_cases h : trField data = true
  · rw [if_pos (htr.mp h), if_pos h]
  · rw [if_neg (fun hc => h (htr.mpr hc)), if_neg h]
    rfl

section Fits

variable [Zlib]

/-- Length field and checksums of a buffer are good. -/
structure Fits (data : List UInt8) : Prop where
  length_le : (lengthField data).toNat ≤ maxPayloadSize
  crc1_eq : UInt32.ofNat (ofBE (slice data 8 4)) = crc32 (data.take 8)
  crc2_eq : lengthField data ≠ 0 →
    crc2Read data = crc32 (slice data 12 (lengthField data).toNat)

theorem fits_iff (data : List UInt8) (pkt : Pkt) :
    Fits data ↔ (lengthField data).toNat ≤ maxPayloadSize ∧ CrcsHold data (parse data pkt) := by
  have hcrc2 := crc2Read_eq data pkt
  constructor
  · intro h
    exact ⟨h.length_le, h.crc1_eq, fun h0 => hcrc2.trans (h.crc2_eq h0)⟩
  · rintro ⟨hlen, hcrc1, hc⟩
    exact ⟨hlen, hcrc1, fun h0 => hcrc2.symm.trans (hc h0)⟩

/-- Good checksums: the verdict is on type and TR bit. -/
theorem status_of_fits {data : List UInt8} {len : ℕ} (hlen : 12 ≤ len) (h : Fits data)
    (pkt : Pkt) : (pktDecode data len pkt).1 = headerStatus data := by
  have hc := ((fits_iff data pkt).mp h).2
  rw [pktDecode_eq data hlen, if_neg (not_lt.mpr h.length_le), if_neg (not_not.mpr hc.1),
    if_pos hc]
  exact typeStatus_parse data pkt

/-- **Otherwise the length field is judged first**, then the checksums. -/
theorem status_of_not_fits {data : List UInt8} {len : ℕ} (hlen : 12 ≤ len) (h : ¬ Fits data)
    (pkt : Pkt) :
    (pktDecode data len pkt).1 =
      if maxPayloadSize < (lengthField data).toNat then .eLength else .eCrc := by
  rw [pktDecode_eq data hlen]
  by_cases hL : maxPayloadSize < (lengthField data).toNat
  · rw [if_pos hL, if_pos hL]
  · have hc : ¬ CrcsHold data (parse data pkt) :=
      fun hc => h ((fits_iff data pkt).mpr ⟨not_lt.mp hL, hc⟩)
    rw [if_neg hL, if_neg hL, if_neg hc]
    split <;> rfl

theorem decode_ok_iff (data : List UInt8) {len : ℕ} (hlen : 12 ≤ len) (pkt q : Pkt) :
    pktDecode data len pkt = (.pktOk, q) ↔
      Fits data ∧ headerStatus data = .pktOk ∧ q = parse data pkt := by
  rw [pktDecode_ok_iff data hlen, fits_iff data pkt, typeStatus_parse]
  tauto

end Fits

/-! ## Buffers that agree on the received bytes -/

theorem slice_congr {data data' : List UInt8} {len off n : ℕ}
    (h : data'.take len = data.take len) (hn : off + n ≤ len) :
    slice data' off n = slice data off n := by
  have hcut : ∀ d : List UInt8, slice d off n = slice (d.take len) off n := by
    intro d
    rw [slice, slice, List.drop_take, List.take_take, Nat.min_eq_left (by omega)]
  rw [hcut, h, ← hcut]

theorem take_congr {data data' : List UInt8} {len n : ℕ} (h : data'.take len = data.take len)
    (hn : n ≤ len) : data'.take n = data.take n := by
  have hfirst : slice data' 0 n = slice data 0 n := slice_congr h (by omega)
  exact hfirst

theorem getD_congr {data data' : List UInt8} {len i : ℕ}
    (h : data'.take len = data.take len) (hi : i < len) : data'.getD i 0 = data.getD i 0 := by
  have hcut : ∀ d : List UInt8, d.getD i 0 = (d.take len).getD i 0 := by
    intro d
    rw [List.getD_eq_getElem?_getD, List.getD_eq_getElem?_getD, List.getElem?_take_of_lt hi]
  rw [hcut, h, ← hcut]

theorem lengthField_congr {data data' : List UInt8} {len : ℕ}
    (h : data'.take len = data.take len) (hlen : 4 ≤ len) :
    lengthField data' = lengthField data := by
  rw [lengthField, lengthField, slice_congr h (by omega)]

/-- The header's bytes are received. -/
structure SameHeader (data' data : List UInt8) : Prop where
  tr_eq : trField data' = trField data
  type_eq : typeField data' = typeField data
  length_eq : lengthField data' = lengthField data

theorem sameHeader_of_take {data data' : List UInt8} {len : ℕ}
    (h : data'.take len = data.take len) (hlen : 12 ≤ len) : SameHeader data' data where
  tr_eq := by rw [trField, trField, getD_congr h (by omega)]
  type_eq := by rw [typeField, typeField, getD_congr h (by omega)]
  length_eq := lengthField_congr h (by omega)

theorem SameHeader.headerStatus_eq {data data' : List UInt8} (h : SameHeader data' data) :
    headerStatus data' = headerStatus data := by
  rw [headerStatus, headerStatus, h.type_eq, h.tr_eq]

theorem SameHeader.coveredSize_eq {data data' : List UInt8} (h : SameHeader data' data) :
    coveredSize data' = coveredSize data := by
  rw [coveredSize, coveredSize, h.length_eq, h.tr_eq]

theorem twelve_add_length_le_covered (data : List UInt8) :
    12 + (lengthField data).toNat ≤ coveredSize data := by
  unfold coveredSize
  split
  · rename_i h
    simp [h]
  · split <;> omega

section Received

variable [Zlib]

/-- Once the checksummed bytes are received, the checksums are decided. -/
theorem fits_congr {data data' : List UInt8} {len : ℕ} (h : data'.take len = data.take len)
    (hlen : 12 ≤ len) (hcov : coveredSize data ≤ len) (hf : Fits data) : Fits data' := by
  have hhead := sameHeader_of_take h hlen
  have hpay := twelve_add_length_le_covered data
  have h8 := take_congr h (show 8 ≤ len by omega)
  refine ⟨hhead.length_eq ▸ hf.length_le, ?_, fun h0 => ?_⟩
  · rw [slice_congr h (by omega), h8]
    exact hf.crc1_eq
  · rw [hhead.length_eq] at h0 ⊢
    rw [slice_congr h (by omega), ← hf.crc2_eq h0, crc2Read, crc2Read, hhead.tr_eq,
      hhead.length_eq]
    by_cases htr : trField data = true
    · rw [if_pos htr, if_pos htr]
    · rw [if_neg htr, if_neg htr]
      rw [coveredSize, if_neg h0, if_neg htr] at hcov
      rw [slice_congr h (by omega)]

end Received

/-! ## The contract of `packet.h` -/

/-- The fields of a packet that carry the message. -/
structure SameMessage (p q : Pkt) : Prop where
  type_eq : p.type = q.type
  tr_eq : p.tr = q.tr
  window_eq : p.window = q.window
  seqnum_eq : p.seqnum = q.seqnum
  length_eq : p.length = q.length
  timestamp_eq : p.timestamp = q.timestamp
  payload_eq : p.payload = q.payload

/-- The size a decoded packet implies. -/
def Pkt.size (pkt : Pkt) : ℕ := if pkt.tr ≠ 0 ∨ pkt.length = 0 then 12 else 16 + pkt.length.toNat

theorem size_parse (data : List UInt8) (pkt : Pkt) :
    (parse data pkt).size = impliedSize data := by
  have htr := trField_eq data pkt
  have hparse : (parse data pkt).tr = (fill data pkt).tr := rfl
  have hlen : (parse data pkt).length = lengthField data := rfl
  unfold Pkt.size impliedSize
  rw [hparse, hlen]
  simp only [htr]

theorem sameMessage_parse {data data' : List UInt8} {len : ℕ} (h : data'.take len = data.take len)
    (hlen : 12 ≤ len) (hcov : coveredSize data ≤ len) (pkt : Pkt) :
    SameMessage (parse data' pkt) (parse data pkt) := by
  have hL := lengthField_congr h (by omega)
  have h0 := getD_congr h (i := 0) (by omega)
  have hpay := twelve_add_length_le_covered data
  refine ⟨?_, ?_, ?_, getD_congr h (by omega), hL, ?_, ?_⟩
  · change PType.ofBits _ = PType.ofBits _
    rw [h0]
  · change (setHeaderByte pkt _).tr = (setHeaderByte pkt _).tr
    rw [h0]
  · change (setHeaderByte pkt _).window = (setHeaderByte pkt _).window
    rw [h0]
  · change UInt32.ofNat (ofLE (slice data' 4 4)) = UInt32.ofNat (ofLE (slice data 4 4))
    rw [slice_congr h (by omega)]
  · change some (slice data' 12 (lengthField data').toNat) =
      some (slice data 12 (lengthField data).toNat)
    rw [hL, slice_congr h (by omega)]

section Contract

variable [Zlib]

/-- What `packet.h` promises of a datagram of `len` bytes at the start of a buffer: it is accepted
only with the size its header implies, and the bytes behind it do not matter. -/
structure Coherent (data : Buffer) (len : ℕ) : Prop where
  size_eq : ∀ q, pktDecode data.1 len pktNew = (.pktOk, q) → len = q.size
  status_eq : ∀ data' : Buffer, data'.1.take len = data.1.take len →
    (pktDecode data'.1 len pktNew).1 = (pktDecode data.1 len pktNew).1
  message_eq : ∀ data' : Buffer, data'.1.take len = data.1.take len →
    (pktDecode data.1 len pktNew).1 = .pktOk →
    SameMessage (pktDecode data'.1 len pktNew).2 (pktDecode data.1 len pktNew).2

/-- Some filling of the bytes that were not received passes the checksums. -/
def Completable (data : Buffer) (len : ℕ) : Prop :=
  ∃ data' : Buffer, data'.1.take len = data.1.take len ∧ Fits data'.1

/-- No completion passes: every one of them gets the same error. -/
theorem coherent_of_not_completable {data : Buffer} {len : ℕ} (hlen : 12 ≤ len)
    (h : ¬ Completable data len) : Coherent data len := by
  have hself : ¬ Fits data.1 := fun hf => h ⟨data, rfl, hf⟩
  have hfail : (pktDecode data.1 len pktNew).1 ≠ .pktOk := by
    rw [status_of_not_fits hlen hself]
    split <;> decide
  refine ⟨fun q hq => absurd (by rw [hq]) hfail, fun data' hd => ?_, fun _ _ hok =>
    absurd hok hfail⟩
  rw [status_of_not_fits hlen hself, status_of_not_fits hlen (fun hf => h ⟨data', hd, hf⟩),
    lengthField_congr hd (by omega)]

/-- Every checksummed byte is received, and an accepted size is the implied one. -/
theorem coherent_of_covered {data : Buffer} {len : ℕ} (hlen : 12 ≤ len)
    (hcov : coveredSize data.1 ≤ len)
    (hsize : headerStatus data.1 ≠ .pktOk ∨ len = impliedSize data.1) : Coherent data len := by
  have hiff : ∀ data' : Buffer, data'.1.take len = data.1.take len →
      (Fits data'.1 ↔ Fits data.1) := by
    intro data' hd
    have hcov' : coveredSize data'.1 ≤ len := by
      rw [(sameHeader_of_take hd hlen).coveredSize_eq]
      exact hcov
    exact ⟨fits_congr hd.symm hlen hcov', fits_congr hd hlen hcov⟩
  have hstatus : ∀ data' : Buffer, data'.1.take len = data.1.take len →
      (pktDecode data'.1 len pktNew).1 = (pktDecode data.1 len pktNew).1 := by
    intro data' hd
    have hhead := sameHeader_of_take hd hlen
    by_cases hf : Fits data.1
    · rw [status_of_fits hlen ((hiff data' hd).mpr hf), status_of_fits hlen hf,
        hhead.headerStatus_eq]
    · rw [status_of_not_fits hlen (mt (hiff data' hd).mp hf), status_of_not_fits hlen hf,
        hhead.length_eq]
  refine ⟨fun q hq => ?_, hstatus, fun data' hd hok => ?_⟩
  · obtain ⟨-, hok, rfl⟩ := (decode_ok_iff _ hlen _ _).mp hq
    rw [size_parse]
    exact hsize.resolve_left (not_not.mpr hok)
  · have hq := (decode_ok_iff _ hlen _ _).mp (Prod.ext hok rfl)
    have hq' := (decode_ok_iff _ hlen _ _).mp (Prod.ext ((hstatus data' hd).trans hok) rfl)
    have hmsg := sameMessage_parse hd hlen hcov pktNew
    rwa [← hq.2.2, ← hq'.2.2] at hmsg

end Contract

/-! ## A missing byte is enough to turn the verdict -/

theorem take_set_of_le {data : List UInt8} {i n : ℕ} (b : UInt8) (h : n ≤ i) :
    (data.set i b).take n = data.take n := by
  have hcut : (data.set i b).take i = data.take i := by
    rw [List.take_set, List.set_eq_of_length_le (by simp)]
  exact take_congr hcut h

theorem slice_set_of_lt {data : List UInt8} {i off n : ℕ} (b : UInt8) (h : off + n ≤ i) :
    slice (data.set i b) off n = slice data off n :=
  slice_congr (take_set_of_le b (le_refl i)) h

theorem slice_set {data : List UInt8} {i off n : ℕ} (b : UInt8) (h : off ≤ i) :
    slice (data.set i b) off n = (slice data off n).set (i - off) b := by
  rw [slice, slice, List.drop_set, if_neg (by omega), List.take_set]

/-- The byte at `i`, changed. -/
def bump (data : List UInt8) (i : ℕ) : List UInt8 := data.set i (data.getD i 0 + 1)

theorem bump_ne {data : List UInt8} {i : ℕ} (h : i < data.length) : bump data i ≠ data := by
  intro heq
  have hget := congrArg (fun d => d.getD i 0) heq
  simp only [bump, List.getD_eq_getElem?_getD, List.getElem?_set_self h, Option.getD_some] at hget
  have hnat := congrArg UInt8.toNat hget
  rw [UInt8.toNat_add] at hnat
  have := (data[i]?.getD 0).toNat_lt
  simp only [UInt8.toNat_ofNat] at hnat
  omega

theorem slice_bump {data : List UInt8} {i off n : ℕ} (hoff : off ≤ i) (hn : i < off + n) :
    slice (bump data i) off n = bump (slice data off n) (i - off) := by
  have hget : (slice data off n).getD (i - off) 0 = data.getD i 0 := by
    rw [List.getD_eq_getElem?_getD, List.getD_eq_getElem?_getD, slice,
      List.getElem?_take_of_lt (by omega), List.getElem?_drop]
    congr 3
    omega
  rw [bump, slice_set _ hoff, bump, hget]

open Zlib.Standard in
/-- One byte of the checksummed part changed, behind the header: the checksum fails. -/
theorem not_fits_bump {data : List UInt8} (hlen : data.length = 528) (h : Fits data)
    (h0 : lengthField data ≠ 0) : ¬ Fits (bump data (coveredSize data - 1)) := by
  intro hb
  have hL := h.length_le
  unfold maxPayloadSize at hL
  have hpos : 0 < (lengthField data).toNat := by
    have : (lengthField data).toNat ≠ 0 := fun hc => h0 (UInt16.toNat_inj.mp hc)
    omega
  have hcov : coveredSize data =
      if trField data then 12 + (lengthField data).toNat else 16 + (lengthField data).toNat := by
    rw [coveredSize, if_neg h0]
  have hcov12 : 12 + (lengthField data).toNat ≤ coveredSize data :=
    twelve_add_length_le_covered data
  have htake : (bump data (coveredSize data - 1)).take 12 = data.take 12 :=
    take_set_of_le _ (by omega)
  have hhead := sameHeader_of_take htake (le_refl 12)
  have hcrc := h.crc2_eq h0
  have hcrcb := hb.crc2_eq (hhead.length_eq.symm ▸ h0)
  rw [crc2Read] at hcrc
  rw [crc2Read, hhead.tr_eq, hhead.length_eq] at hcrcb
  by_cases htr : trField data = true
  · -- truncated: the last byte of the payload
    rw [if_pos htr] at hcov hcrc hcrcb
    rw [slice_bump (by omega) (by omega), hcrc] at hcrcb
    have hsize : (slice data 12 (lengthField data).toNat).length = (lengthField data).toNat :=
      length_slice (by omega)
    refine Zlib.Standard.crc32_ne_of_burst ((lengthField data).toNat - 1) (by simp [bump]) ?_ ?_
      (bump_ne (i := coveredSize data - 1 - 12) (by omega)) hcrcb.symm
    · rw [bump, List.take_set, List.set_eq_of_length_le]
      rw [List.length_take, hsize]
      omega
    · rw [List.drop_eq_nil_of_le (by rw [bump, List.length_set]; omega),
        List.drop_eq_nil_of_le (by omega)]
  · -- the last byte of the CRC2
    rw [if_neg htr] at hcov hcrc hcrcb
    rw [slice_bump (by omega) (by omega), show slice (bump data (coveredSize data - 1)) 12
      (lengthField data).toNat = slice data 12 (lengthField data).toNat from
      slice_set_of_lt _ (by omega), ← hcrc] at hcrcb
    have hsize : (slice data (12 + (lengthField data).toNat) 4).length = 4 :=
      length_slice (by omega)
    exact bump_ne (by omega) (ofBE_word_injective (by simpa [bump] using hsize) hsize hcrcb)

open Zlib.Standard in
/-- **When the contract holds.** -/
theorem coherent_iff (data : Buffer) (len : ℕ) (hlen : 12 ≤ len) (hmax : len ≤ 528) :
    Coherent data len ↔ ¬ Completable data len ∨
      coveredSize data.1 ≤ len ∧ (headerStatus data.1 ≠ .pktOk ∨ len = impliedSize data.1) := by
  constructor
  · intro h
    by_cases hcomp : Completable data len
    · obtain ⟨data', hd, hf⟩ := hcomp
      have hhead := sameHeader_of_take hd hlen
      have hcov : coveredSize data.1 ≤ len := by
        by_contra hshort
        -- `data'` passes the checksums, the same buffer with one missing byte changed does not
        rw [← hhead.coveredSize_eq] at hshort
        have h0 : lengthField data'.1 ≠ 0 := by
          intro hc
          rw [coveredSize, if_pos hc] at hshort
          omega
        have hnot := not_fits_bump data'.2 hf h0
        have hcut : (bump data'.1 (coveredSize data'.1 - 1)).take len = data.1.take len := by
          rw [← hd]
          exact take_set_of_le _ (by omega)
        have hsame := h.status_eq data' hd
        have hturned := h.status_eq ⟨_, (List.length_set ..).trans data'.2⟩ hcut
        have hle := hf.length_le
        rw [hhead.length_eq, ← (sameHeader_of_take hcut hlen).length_eq] at hle
        have hcrc := status_of_not_fits hlen hnot pktNew
        rw [if_neg (not_lt.mpr hle)] at hcrc
        rw [status_of_fits hlen hf] at hsame
        exact headerStatus_ne_crc _ (hsame.trans (hturned.symm.trans hcrc))
      refine Or.inr ⟨hcov, ?_⟩
      have hself : Fits data.1 :=
        fits_congr hd.symm hlen (by rw [hhead.coveredSize_eq]; exact hcov) hf
      by_cases hok : headerStatus data.1 = .pktOk
      · refine Or.inr ?_
        rw [← size_parse data.1 pktNew]
        exact h.size_eq _ ((decode_ok_iff _ hlen _ _).mpr ⟨hself, hok, rfl⟩)
      · exact Or.inl hok
    · exact Or.inl hcomp
  · rintro (h | ⟨hcov, hsize⟩)
    · exact coherent_of_not_completable hlen h
    · exact coherent_of_covered hlen hcov hsize

/-- A DATA packet with one byte of payload. -/
def onePayloadByte : Pkt :=
  { pktNew with type := .data, length := 1, payload := some [120] }

/-- The segment of `onePayloadByte`, 17 bytes long, in a cleared buffer. -/
def onePayloadByteRead [Zlib] : Buffer :=
  ⟨readInto cleared 528 (wire onePayloadByte), length_readInto cleared (le_refl 528) _⟩

open Zlib.Standard in
/-- All of the segment received: its checksums hold, and its size is the one the header implies. -/
theorem coherent_iff_received :
    Completable onePayloadByteRead 17 ∧ Coherent onePayloadByteRead 17 := by
  have hok : (pktDecode onePayloadByteRead.1 17 pktNew).1 = .pktOk := by decide +kernel
  have hdec := (Prod.eta (pktDecode onePayloadByteRead.1 17 pktNew)).symm
  rw [hok, decode_ok_iff onePayloadByteRead.1 (by decide)] at hdec
  have hfits : Fits onePayloadByteRead.1 := hdec.1
  have hcovered : coveredSize onePayloadByteRead.1 ≤ 17 := by decide +kernel
  have himplied : 17 = impliedSize onePayloadByteRead.1 := by decide +kernel
  exact ⟨⟨onePayloadByteRead, rfl, hfits⟩,
    (coherent_iff onePayloadByteRead 17 (by decide) (by decide)).mpr
      (Or.inr ⟨hcovered, Or.inr himplied⟩)⟩

open Zlib.Standard in
/-- The segment is accepted when 18 bytes were received, and when 12 were. -/
theorem not_coherent_sizes :
    (wire onePayloadByte).length = 17 ∧
      ¬ Coherent onePayloadByteRead 18 ∧ ¬ Coherent onePayloadByteRead 12 := by
  have hsend : Sendable onePayloadByte := ⟨by decide, by decide, by decide, by decide⟩
  have h17 : (wire onePayloadByte).length = 17 := by decide
  have hread : onePayloadByteRead.1 = wire onePayloadByte ++ List.replicate 511 0 := by
    have hzeros := readInto_cleared (length_wire_le hsend)
    rwa [h17] at hzeros
  have hfail : ∀ len, 12 ≤ len → len ≠ 17 → ¬ Coherent onePayloadByteRead len := by
    intro len hlen hne hc
    have hok := pktDecode_wire hsend (k := 511) (by decide) hlen pktNew
    rw [← hread] at hok
    exact hne (hc.size_eq _ hok)
  exact ⟨h17, hfail 18 (by decide) (by decide), hfail 12 (by decide) (by decide)⟩

end Trtp
