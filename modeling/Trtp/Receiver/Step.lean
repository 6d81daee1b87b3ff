import Trtp.Packet.RoundTrip
import Trtp.Stack

/-!
# The receiver (`src/socket/read_write_loop_receiver.c`, `receiver.c:96-105`)

One turn of `read_write_loop_receiver` with a datagram to read: `receive`. Its results are the new
state and the datagrams it sends. The globals `expectedSeqnum` and `window`, `receivingStack` and
the writes to the output are the state; `closed` says that the loop was left.

After the NACK of a truncated packet the code frees the packet and goes on with it. What the freed
memory then holds is the parameter `dangling`.

* `drain_fuel`: the bound on the drain loop, the size of the stack, is enough.
* `sendReply_eq`: a reply is one 12-byte segment; `replyOf_wire`: it decodes in 12 bytes, whatever
  the buffer held.

Premises: `read`, `write`, `send` and `malloc` succeed (`write` with a `NULL` payload writes
nothing). `malloc(sizeof(packet))` asks for 8 bytes and `pkt_encode` writes 12 into them: the model
gives the buffer its 12 bytes.
-/

namespace Trtp

open Trtp.Bytes

/-- The receiver's globals, its stack, what it wrote (one entry a `write`), and whether it left
its loop. -/
structure Receiver where
  expectedSeqnum : UInt8
  window : UInt8
  receivingStack : Stack
  output : List (List UInt8)
  closed : Bool
  deriving Repr, DecidableEq

/-- The state `main` starts the loop in. -/
def Receiver.start : Receiver :=
  { expectedSeqnum := 0, window := UInt8.ofNat maxWindowSize, receivingStack := [], output := []
    closed := false }

/-- The bytes that `write` takes from a packet. -/
def written (packet : Pkt) : List UInt8 :=
  match pktGetPayload packet with
  | some payload => payload.take packet.length.toNat
  | none => []

/-- `(uint8_t) (MAX_WINDOW_SIZE - stack_size(receivingStack))`. -/
def windowLeft (receivingStack : Stack) : UInt8 :=
  UInt8.ofNat maxWindowSize - UInt8.ofNat receivingStack.length

theorem toNat_windowLeft {stack : Stack} (h : stack.length ≤ 31) :
    (windowLeft stack).toNat = 31 - stack.length := by
  rw [windowLeft, UInt8.toNat_sub, UInt8.toNat_ofNat', UInt8.toNat_ofNat', maxWindowSize]
  omega

/-- The packet of `send_reply`. -/
def replyPkt (window : UInt8) (type : PType) (previousTimestamp : UInt32) (seqnum : UInt8) : Pkt :=
  let packet := (pktSetType pktNew type).2
  let packet := (pktSetWindow packet window).2
  let packet := (pktSetSeqnum packet seqnum).2
  let packet := (pktSetTimestamp packet previousTimestamp).2
  (pktSetLength packet 0).2

/-- The drain loop. A round takes a packet out of the stack: `fuel` is the size of the stack. -/
def drain : ℕ → Receiver → UInt32 → Receiver × UInt32
  | 0, r, previousTimestamp => (r, previousTimestamp)
  | fuel + 1, r, previousTimestamp =>
    match stackRemove r.receivingStack r.expectedSeqnum with
    | (none, _) => (r, previousTimestamp)
    | (some packet, receivingStack) =>
      drain fuel
        { r with
          output := r.output ++ [written packet]
          expectedSeqnum := incrementSeqnum r.expectedSeqnum
          receivingStack := receivingStack
          window := windowLeft receivingStack }
        packet.timestamp

section Loop

variable [Zlib]

/-- `send_reply`: what is sent, nothing when the reply could not be encoded. -/
def sendReply (window : UInt8) (type : PType) (previousTimestamp : UInt32) (seqnum : UInt8) :
    List (List UInt8) :=
  let e := pktEncode (replyPkt window type previousTimestamp seqnum) (List.replicate 12 0) 12
  if e.status = .eNomem then [] else [e.segment]

/-- An accepted packet, by its number: in order, inside the window, or out of sequence. -/
def accept (r : Receiver) (packet : Pkt) (previousTimestamp : UInt32) :
    Receiver × List (List UInt8) :=
  if packet.seqnum = r.expectedSeqnum then
    let r := { r with
      output := r.output ++ [written packet]
      expectedSeqnum := incrementSeqnum r.expectedSeqnum }
    let (r, previousTimestamp) := drain r.receivingStack.length r previousTimestamp
    (r, sendReply r.window .ack previousTimestamp r.expectedSeqnum)
  else if isExpected r.expectedSeqnum packet.seqnum then
    if isInStack r.receivingStack packet.seqnum then (r, [])
    else
      let r := { r with
        receivingStack := stackEnqueue r.receivingStack packet
        window := windowLeft (stackEnqueue r.receivingStack packet) }
      (r, sendReply r.window .ack previousTimestamp r.expectedSeqnum)
  else (r, sendReply r.window .ack previousTimestamp r.expectedSeqnum)

/-- One turn of `read_write_loop_receiver` with a datagram to read. -/
def receive (dangling : Pkt) (r : Receiver) (datagram : List UInt8) :
    Receiver × List (List UInt8) :=
  let sfdBuffer := readInto cleared (maxPayloadSize + 16) datagram
  let justRead := min (maxPayloadSize + 16) datagram.length
  match pktDecode sfdBuffer justRead pktNew with
  | (.pktOk, packet) =>
    if packet.type = .data ∧ packet.length = 0 ∧ pktGetTr packet = 0 ∧
        packet.seqnum = r.expectedSeqnum then
      let r := { r with expectedSeqnum := incrementSeqnum r.expectedSeqnum, closed := true }
      (r, (List.replicate 5 (sendReply r.window .ack packet.timestamp r.expectedSeqnum)).flatten)
    else if pktGetTr packet = 1 then
      -- `pkt_del(packet)`, and no `continue`
      let (r', replies) := accept r dangling packet.timestamp
      (r', sendReply r.window .nack packet.timestamp packet.seqnum ++ replies)
    else accept r packet packet.timestamp
  | (_, packet) => (r, sendReply r.window .nack packet.timestamp r.expectedSeqnum)

end Loop

/-! ## The drain loop runs to its end -/

theorem length_stackRemove {stack rest : Stack} {seqnum : UInt8} {packet : Pkt}
    (h : stackRemove stack seqnum = (some packet, rest)) : rest.length + 1 = stack.length := by
  induction stack generalizing rest with
  | nil => exact absurd h (by simp [stackRemove])
  | cons runner next ih =>
    rw [stackRemove] at h
    split at h
    · rw [Prod.mk.injEq] at h
      obtain ⟨hfst, rfl⟩ := h
      rw [List.length_cons, List.length_cons, ih (Prod.ext hfst rfl)]
    · rw [Prod.mk.injEq] at h
      rw [← h.2, List.length_cons]

/-- **The loop ends by itself**: it is out of packets before it is out of fuel. -/
theorem drain_fuel {fuel : ℕ} {r : Receiver} {previousTimestamp : UInt32}
    (h : r.receivingStack.length ≤ fuel) :
    drain fuel r previousTimestamp = drain r.receivingStack.length r previousTimestamp ∧
      (stackRemove (drain fuel r previousTimestamp).1.receivingStack
        (drain fuel r previousTimestamp).1.expectedSeqnum).1 = none := by
  induction fuel generalizing r previousTimestamp with
  | zero =>
    have hnil : r.receivingStack = [] := List.eq_nil_of_length_eq_zero (Nat.le_zero.mp h)
    rw [hnil]
    exact ⟨rfl, by rw [drain, hnil]; rfl⟩
  | succ fuel ih =>
    cases hrem : stackRemove r.receivingStack r.expectedSeqnum with
    | mk packet rest =>
      cases packet with
      | none =>
        have hstop : ∀ n, drain n r previousTimestamp = (r, previousTimestamp) := by
          intro n
          cases n with
          | zero => rfl
          | succ n => simp only [drain, hrem]
        rw [hstop, hstop, hrem]
        exact ⟨rfl, rfl⟩
      | some packet =>
        have hlen := length_stackRemove hrem
        rw [← hlen]
        simp only [drain, hrem]
        exact ih (by simp only; omega)

/-! ## Replies -/

theorem sendable_replyPkt (window : UInt8) {type : PType} (previousTimestamp : UInt32)
    (seqnum : UInt8) (h : type ≠ .unset) :
    Sendable (replyPkt window type previousTimestamp seqnum) := by
  unfold replyPkt pktSetWindow
  split <;> exact ⟨h, rfl, rfl, (by decide : (0 : UInt16).toNat ≤ maxPayloadSize)⟩

@[simp] theorem replyPkt_type (window : UInt8) (type : PType) (ts : UInt32) (seqnum : UInt8) :
    (replyPkt window type ts seqnum).type = type := by
  unfold replyPkt pktSetWindow
  split <;> rfl

@[simp] theorem replyPkt_seqnum (window : UInt8) (type : PType) (ts : UInt32) (seqnum : UInt8) :
    (replyPkt window type ts seqnum).seqnum = seqnum := by
  unfold replyPkt pktSetWindow
  split <;> rfl

@[simp] theorem replyPkt_bytes (window : UInt8) (type : PType) (ts : UInt32) (seqnum : UInt8) :
    (replyPkt window type ts seqnum).bytes = [] := by
  unfold replyPkt pktSetWindow
  split <;> rfl

@[simp] theorem replyPkt_length (window : UInt8) (type : PType) (ts : UInt32) (seqnum : UInt8) :
    (replyPkt window type ts seqnum).length = 0 := by
  unfold replyPkt pktSetWindow
  split <;> rfl

/-- A window of at most 31 is the one that is sent. -/
theorem replyPkt_window {window : UInt8} (type : PType) (ts : UInt32) (seqnum : UInt8)
    (h : window.toNat ≤ 31) : pktGetWindow (replyPkt window type ts seqnum) = window := by
  have hle : ¬ maxWindowSize < window.toNat := by
    unfold maxWindowSize
    omega
  unfold replyPkt pktSetWindow
  simp only [dif_neg hle]
  exact UInt8.ofNat_toNat

variable [Zlib]

theorem length_wire_replyPkt (window : UInt8) (type : PType) (ts : UInt32) (seqnum : UInt8) :
    (wire (replyPkt window type ts seqnum)).length = 12 := by
  rw [length_wire, replyPkt_bytes, crc2Field_nil]
  rfl

/-- **A reply is the segment of its packet.** -/
theorem sendReply_eq (window : UInt8) {type : PType} (ts : UInt32) (seqnum : UInt8)
    (h : type ≠ .unset) :
    sendReply window type ts seqnum = [wire (replyPkt window type ts seqnum)] := by
  have hsend := sendable_replyPkt window ts seqnum h
  have h12 := length_wire_replyPkt window type ts seqnum
  unfold sendReply
  rw [pktEncode_eq hsend _ h12.le, if_neg (by simp), Encoded.segment, List.take_left]

/-- What `process_response` makes of 12 bytes at most. -/
def replyOf (junk : Buffer) (datagram : List UInt8) : PktStatusCode × Pkt :=
  pktDecode (readInto junk 12 datagram) (min 12 datagram.length) pktNew

/-- A reply is read whole, and nothing behind it matters. -/
theorem replyOf_wire (junk : Buffer) (type : PType) (window : UInt8) (ts : UInt32)
    (seqnum : UInt8) (h : type ≠ .unset) :
    ∃ packet, replyOf junk (wire (replyPkt window type ts seqnum)) = (.pktOk, packet) ∧
      packet.type = type ∧ packet.seqnum = seqnum ∧
      pktGetWindow packet = pktGetWindow (replyPkt window type ts seqnum) := by
  have hsend := sendable_replyPkt window ts seqnum h
  have hlen := length_wire_replyPkt window type ts seqnum
  have hread : readInto junk 12 (wire (replyPkt window type ts seqnum)) =
      wireThen (replyPkt window type ts seqnum) (junk.1.drop 12) := by
    rw [readInto, List.take_of_length_le hlen.le, overwrite_zero, wire_append, replyPkt_bytes,
      crc2Field_nil, List.nil_append, hlen]
  have hcrc2 : (replyPkt window type ts seqnum).length ≠ 0 →
      UInt32.ofNat (ofBE ((junk.1.drop 12).take 4)) =
        crc32 (replyPkt window type ts seqnum).bytes :=
    fun h0 => absurd (replyPkt_length window type ts seqnum) h0
  have hdec := pktDecode_wireThen hsend (le_refl 12) hcrc2 pktNew
  rw [← hread] at hdec
  unfold replyOf
  rw [hlen, Nat.min_self]
  exact ⟨_, hdec, replyPkt_type window type ts seqnum, replyPkt_seqnum window type ts seqnum, rfl⟩

/-- **A datagram that `pkt_decode` rejects costs one NACK** and nothing else. -/
theorem receive_of_rejected {datagram : List UInt8}
    (h : (pktDecode (readInto cleared 528 datagram) (min 528 datagram.length) pktNew).1 ≠ .pktOk)
    (dangling : Pkt) (r : Receiver) :
    ∃ ts, receive dangling r datagram =
      (r, [wire (replyPkt r.window .nack ts r.expectedSeqnum)]) := by
  cases hdec : pktDecode (readInto cleared 528 datagram) (min 528 datagram.length) pktNew with
  | mk status packet =>
    rw [hdec] at h
    refine ⟨packet.timestamp, ?_⟩
    rw [← sendReply_eq r.window packet.timestamp r.expectedSeqnum (by simp)]
    simp only [receive, maxPayloadSize, hdec]

end Trtp
