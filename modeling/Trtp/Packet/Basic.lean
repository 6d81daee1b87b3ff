import Trtp.Lib.Crc

/-!
# The packet structure (`src/packet/packet.h`, `packet.c:12-38`, `:244-381`)

`struct pkt` with its accessors. The three bit-fields are `Fin` types of their widths (5, 1 and 2
bits), the other fields fixed-width words; `payload` is the pointer, `none` for `NULL`, with the
bytes it points to. The setters return the status and the packet, since the C code writes through
the pointer and returns the status.

Premises: `malloc` succeeds, and no caller passes a `NULL` packet. A 2-bit `type` can hold 0,
which `ptypes_t` does not name: `PType.unset`.

`Zlib` is the library the code links against: `crc32 bytes` stands for
`crc32(crc32(0L, Z_NULL, 0), bytes, len)`. Zlib documents that no bytes leave the initial value 0
(`crc32_nil`). `Zlib.standard` is the reflected CRC-32.
-/

namespace Trtp

open Trtp.Bytes

/-- What the code uses of zlib. -/
class Zlib where
  /-- The checksum of a byte string, from the required initial value. -/
  crc32 : List UInt8 → UInt32
  /-- No bytes: the initial value. -/
  crc32_nil : crc32 [] = 0

export Zlib (crc32 crc32_nil)

/-- The CRC-32 polynomial, reflected. -/
def crcPoly : BitVec 32 := 0xEDB88320#32

/-- The standard reflected CRC-32. -/
@[reducible] def Zlib.standard : Zlib where
  crc32 bytes := ⟨Crc.crc crcPoly bytes⟩
  crc32_nil := by decide

namespace Zlib.Standard

/-- The checksum of statements about the standard CRC-32. -/
scoped instance : Zlib := Zlib.standard

/-- Two strings that differ only within four consecutive bytes have different checksums. -/
theorem crc32_ne_of_burst {as bs : List UInt8} (start : ℕ) (hlen : as.length = bs.length)
    (hbefore : as.take start = bs.take start) (hafter : as.drop (start + 4) = bs.drop (start + 4))
    (hne : as ≠ bs) : crc32 as ≠ crc32 bs := by
  intro h
  exact Crc.crc_ne_of_burst crcPoly (by decide) start 4 (by decide) hlen hbefore hafter hne
    (congrArg UInt32.toBitVec h)

end Zlib.Standard

/-- `ptypes_t` in a 2-bit field. -/
inductive PType where
  | unset
  | data
  | ack
  | nack
  deriving Repr, DecidableEq

/-- The number of a type. -/
def PType.bits : PType → ℕ
  | .unset => 0
  | .data => 1
  | .ack => 2
  | .nack => 3

/-- The type of a 2-bit number. -/
def PType.ofBits : ℕ → PType
  | 1 => .data
  | 2 => .ack
  | 3 => .nack
  | _ => .unset

@[simp] theorem PType.ofBits_bits (t : PType) : PType.ofBits t.bits = t := by
  cases t <;> rfl

theorem PType.bits_lt (t : PType) : t.bits < 4 := by
  cases t <;> decide

/-- `pkt_status_code`. -/
inductive PktStatusCode where
  | pktOk
  | eType
  | eTr
  | eLength
  | eCrc
  | eWindow
  | eSeqnum
  | eNomem
  | eNoheader
  | eUnconsistent
  deriving Repr, DecidableEq

/-- `MAX_PAYLOAD_SIZE`. -/
def maxPayloadSize : ℕ := 512

/-- `MAX_WINDOW_SIZE`. -/
def maxWindowSize : ℕ := 31

instance neZero_window : NeZero 32 := ⟨by decide⟩

instance neZero_tr : NeZero 2 := ⟨by decide⟩

/-- `struct pkt`. -/
structure Pkt where
  window : Fin 32
  tr : Fin 2
  type : PType
  seqnum : UInt8
  length : UInt16
  timestamp : UInt32
  payload : Option (List UInt8)
  crc1 : UInt32
  crc2 : UInt32
  deriving Repr, DecidableEq

/-- `pkt_new`: all bytes zero. -/
def pktNew : Pkt :=
  { window := 0, tr := 0, type := .unset, seqnum := 0, length := 0, timestamp := 0,
    payload := none, crc1 := 0, crc2 := 0 }

/-! ## The first byte of the structure

GCC lays the bit-fields out from the low bit up: `window`, `tr`, `type`. -/

/-- The byte `memcpy` takes from the start of the structure. -/
def headerByte (pkt : Pkt) : UInt8 :=
  UInt8.ofNat (pkt.window + 32 * pkt.tr + 64 * pkt.type.bits)

/-- The structure after `memcpy` wrote its first byte. -/
def setHeaderByte (pkt : Pkt) (b : UInt8) : Pkt :=
  { pkt with
    window := ⟨b.toNat % 32, Nat.mod_lt _ (by decide)⟩
    tr := ⟨b.toNat / 32 % 2, Nat.mod_lt _ (by decide)⟩
    type := PType.ofBits (b.toNat / 64) }

theorem toNat_headerByte (pkt : Pkt) :
    (headerByte pkt).toNat = pkt.window + 32 * pkt.tr + 64 * pkt.type.bits := by
  have hw := pkt.window.isLt
  have ht := pkt.tr.isLt
  have hb := pkt.type.bits_lt
  rw [headerByte, UInt8.toNat_ofNat']
  omega

/-- The bit-fields read back what they were written from. -/
theorem setHeaderByte_headerByte (p pkt : Pkt) :
    setHeaderByte p (headerByte pkt) =
      { p with window := pkt.window, tr := pkt.tr, type := pkt.type } := by
  have hw := pkt.window.isLt
  have ht := pkt.tr.isLt
  have hb := pkt.type.bits_lt
  have hwindow : (headerByte pkt).toNat % 32 = pkt.window := by rw [toNat_headerByte]; omega
  have htr : (headerByte pkt).toNat / 32 % 2 = pkt.tr := by rw [toNat_headerByte]; omega
  have htype : (headerByte pkt).toNat / 64 = pkt.type.bits := by rw [toNat_headerByte]; omega
  unfold setHeaderByte
  simp only [hwindow, htr, htype, PType.ofBits_bits]

/-! ## Accessors -/

/-- `pkt_get_tr`. -/
def pktGetTr (pkt : Pkt) : UInt8 := UInt8.ofNat pkt.tr

/-- `pkt_get_window`. -/
def pktGetWindow (pkt : Pkt) : UInt8 := UInt8.ofNat pkt.window

/-- `pkt_get_payload`: `NULL` for a truncated packet. -/
def pktGetPayload (pkt : Pkt) : Option (List UInt8) :=
  if pkt.tr ≠ 0 then none else pkt.payload

/-- `pkt_get_crc2`: 0 for a truncated packet. -/
def pktGetCrc2 (pkt : Pkt) : UInt32 :=
  if pkt.tr ≠ 0 then 0 else pkt.crc2

/-- `pkt_set_type`. -/
def pktSetType (pkt : Pkt) (type : PType) : PktStatusCode × Pkt :=
  (.pktOk, { pkt with type := type })

/-- `pkt_set_tr`. -/
def pktSetTr (pkt : Pkt) (tr : UInt8) : PktStatusCode × Pkt :=
  if h : 1 < tr.toNat then (.eTr, pkt) else (.pktOk, { pkt with tr := ⟨tr.toNat, by omega⟩ })

/-- `pkt_set_window`. -/
def pktSetWindow (pkt : Pkt) (window : UInt8) : PktStatusCode × Pkt :=
  if h : maxWindowSize < window.toNat then (.eWindow, pkt)
  else (.pktOk, { pkt with window := ⟨window.toNat, by unfold maxWindowSize at h; omega⟩ })

/-- `pkt_set_seqnum`. -/
def pktSetSeqnum (pkt : Pkt) (seqnum : UInt8) : PktStatusCode × Pkt :=
  (.pktOk, { pkt with seqnum := seqnum })

/-- `pkt_set_length`. -/
def pktSetLength (pkt : Pkt) (length : UInt16) : PktStatusCode × Pkt :=
  if maxPayloadSize < length.toNat then (.eLength, pkt)
  else (.pktOk, { pkt with length := length })

/-- `pkt_set_timestamp`. -/
def pktSetTimestamp (pkt : Pkt) (timestamp : UInt32) : PktStatusCode × Pkt :=
  (.pktOk, { pkt with timestamp := timestamp })

/-- `pkt_set_crc1`. -/
def pktSetCrc1 (pkt : Pkt) (crc1 : UInt32) : PktStatusCode × Pkt :=
  (.pktOk, { pkt with crc1 := crc1 })

/-- `pkt_set_crc2`. -/
def pktSetCrc2 (pkt : Pkt) (crc2 : UInt32) : PktStatusCode × Pkt :=
  (.pktOk, { pkt with crc2 := crc2 })

/-- `pkt_set_payload`: the length first, then a fresh copy of `length` bytes of `data`. -/
def pktSetPayload (pkt : Pkt) (data : List UInt8) (length : UInt16) : PktStatusCode × Pkt :=
  if maxPayloadSize < length.toNat then (.eLength, pkt)
  else
    match pktSetLength pkt length with
    | (.pktOk, pkt) => (.pktOk, { pkt with payload := some (data.take length.toNat) })
    | failed => failed

theorem toNat_pktGetTr (pkt : Pkt) : (pktGetTr pkt).toNat = pkt.tr := by
  have := pkt.tr.isLt
  rw [pktGetTr, UInt8.toNat_ofNat']
  omega

/-- `trBeforeCRC1` put back. -/
theorem pktSetTr_of_get (pkt p : Pkt) :
    pktSetTr p (pktGetTr pkt) = (.pktOk, { p with tr := pkt.tr }) := by
  have hle : ¬ 1 < (pktGetTr pkt).toNat := by
    have := pkt.tr.isLt
    rw [toNat_pktGetTr]
    omega
  unfold pktSetTr
  rw [dif_neg hle]
  simp only [toNat_pktGetTr]

@[simp] theorem pktSetTr_get (pkt : Pkt) : pktSetTr pkt (pktGetTr pkt) = (.pktOk, pkt) :=
  pktSetTr_of_get pkt pkt

@[simp] theorem pktSetTr_zero (pkt : Pkt) : pktSetTr pkt 0 = (.pktOk, { pkt with tr := 0 }) := rfl

@[simp] theorem pktSetWindow_get (pkt : Pkt) :
    pktSetWindow pkt (pktGetWindow pkt) = (.pktOk, pkt) := by
  have hw : (UInt8.ofNat pkt.window).toNat = pkt.window := by
    have := pkt.window.isLt
    rw [UInt8.toNat_ofNat']
    omega
  have hle : ¬ maxWindowSize < (UInt8.ofNat pkt.window).toNat := by
    have := pkt.window.isLt
    unfold maxWindowSize
    omega
  unfold pktSetWindow pktGetWindow
  rw [dif_neg hle]
  simp only [hw]

theorem pktSetLength_of_le (pkt : Pkt) {length : UInt16} (h : length.toNat ≤ maxPayloadSize) :
    pktSetLength pkt length = (.pktOk, { pkt with length := length }) :=
  if_neg (by omega)

theorem pktSetPayload_of_le (pkt : Pkt) (data : List UInt8) {length : UInt16}
    (h : length.toNat ≤ maxPayloadSize) :
    pktSetPayload pkt data length =
      (.pktOk, { pkt with length := length, payload := some (data.take length.toNat) }) := by
  unfold pktSetPayload
  rw [if_neg (by omega), pktSetLength_of_le pkt h]

/-! ## Packets the program sends -/

/-- The payload's bytes; none for a `NULL` pointer. -/
def Pkt.bytes (pkt : Pkt) : List UInt8 := pkt.payload.getD []

/-- A packet of the segment format that is not truncated: the length field is the payload's size. -/
structure Sendable (pkt : Pkt) : Prop where
  type_ne : pkt.type ≠ .unset
  tr_eq : pkt.tr = 0
  length_eq : pkt.bytes.length = pkt.length.toNat
  length_le : pkt.length.toNat ≤ maxPayloadSize

end Trtp
