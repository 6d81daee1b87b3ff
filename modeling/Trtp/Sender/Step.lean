import Trtp.Packet.RoundTrip
import Trtp.Stack

/-!
# The sender (`src/socket/read_write_loop_sender.c`)

`read_write_loop_sender` with `check_for_RT`, `process_response` and `isInRange`. An iteration of
the main loop has two parts, which `pc` tells apart: at `top` it may transmit a packet
(`transmit`), in `wait` it sits in the inner loop until a reply is there (`respond`) or the time
set for `select` is over (`wakeUp`). `endIteration` is what stands behind the inner loop, together
with the condition of the main loop.

* `transmit_cases`, `processAck_eq`, `processNack_eq`, `checkForRT_cases`: what each part can do.

Premises: `write` succeeds, `int` counters do not overflow. `read` may fail: `respond` with `none`.
`packetsSentCount` is only printed and left out. `buf` is the buffer of `read_write_loop_sender`
with whatever an encoding left in it; `process_response` reads into one of its own that is not
cleared (`junk`).
-/

namespace Trtp

/-- Where `read_write_loop_sender` stands: at the head of the main loop, in the inner loop, or
returned with `EXIT_SUCCESS` or `EXIT_FAILURE`. -/
inductive Pc where
  | top
  | wait
  | success
  | failure
  deriving Repr, DecidableEq

/-- The globals of the sender, and the locals of its main loop that outlive an iteration. -/
structure Sender where
  sendingStack : Stack
  seqnumToSend : UInt8
  lastSeqnumAcked : UInt8
  lastSeqnumAckedCounter : ℕ
  receiverWindowSize : UInt8
  totalPacketsToSend : ℤ
  totalPacketsSent : ℤ
  hasRTed : Bool
  hasNACKed : Bool
  hasFastRetransmitted : Bool
  lastpacketsSentCount : ℕ
  lastEncodedSeqnum : UInt8
  buf : List UInt8
  pc : Pc
  deriving Repr, DecidableEq

/-- `RTlength`. -/
def RTlength : ℤ := 4

/-- Some retransmission was asked for. -/
def Sender.flagged (s : Sender) : Bool := s.hasRTed || s.hasNACKed || s.hasFastRetransmitted

/-- `seqnum == totalPacketsToSend % 256`, in `int` arithmetic. -/
def isTotal (totalPacketsToSend : ℤ) (seqnum : UInt8) : Prop :=
  (seqnum.toNat : ℤ) = totalPacketsToSend.tmod 256

instance (totalPacketsToSend : ℤ) (seqnum : UInt8) :
    Decidable (isTotal totalPacketsToSend seqnum) :=
  inferInstanceAs (Decidable (_ = _))

/-- The condition of the main loop. -/
def loopHead (s : Sender) (mainBreak : Bool) : Sender :=
  if 0 < s.sendingStack.length ∧ mainBreak = false then { s with pc := .top }
  else { s with pc := .success }

/-- Behind the inner loop. -/
def endIteration (s : Sender) (mainBreak : Bool) : Sender :=
  if 5 < s.lastpacketsSentCount then { s with pc := .success }
  else if mainBreak ∧ ¬ isTotal s.totalPacketsToSend s.lastSeqnumAcked ∧
      s.sendingStack.length < 256 then
    loopHead s false
  else loopHead s mainBreak

/-- The head of `read_write_loop_sender`: its own variables are set, the flags and
`lastpacketsSentCount` are not. -/
def Sender.enter (s : Sender) (buf : List UInt8) : Sender :=
  loopHead
    { s with
      totalPacketsToSend := Int.bmod s.sendingStack.length (2 ^ 32)
      totalPacketsSent := 0
      receiverWindowSize := 1
      lastEncodedSeqnum := 0
      seqnumToSend := 0
      lastSeqnumAcked := 0
      lastSeqnumAckedCounter := 0
      buf := buf }
    false

/-- The globals at the start of the program, with a filled stack. -/
def Sender.boot (stack : Stack) : Sender :=
  { sendingStack := stack, seqnumToSend := 0, lastSeqnumAcked := 0, lastSeqnumAckedCounter := 0
    receiverWindowSize := 0, totalPacketsToSend := 0, totalPacketsSent := 0, hasRTed := false
    hasNACKed := false, hasFastRetransmitted := false, lastpacketsSentCount := 0
    lastEncodedSeqnum := 0, buf := [], pc := .top }

/-- "Wait to send last packet". -/
def Sender.holdsBack (s : Sender) : Prop :=
  s.sendingStack.length < 256 ∧ s.seqnumToSend ≠ s.lastSeqnumAcked ∧
    ∃ pkt ∈ stackGetPkt s.sendingStack s.seqnumToSend, pkt.length = 0

instance (s : Sender) : Decidable s.holdsBack :=
  inferInstanceAs (Decidable (_ ∧ _ ∧ ∃ pkt ∈ stackGetPkt s.sendingStack s.seqnumToSend, _))

/-- "updating values for next packet to send", "avoid go-back-n" when it was a retransmission. -/
def Sender.advance (s : Sender) : Sender :=
  if s.flagged then
    { s with
      seqnumToSend := incrementSeqnum s.lastEncodedSeqnum
      hasRTed := false
      hasNACKed := false
      hasFastRetransmitted := false }
  else
    { s with
      lastEncodedSeqnum := s.seqnumToSend
      seqnumToSend := incrementSeqnum s.seqnumToSend
      receiverWindowSize :=
        if 0 < s.receiverWindowSize then s.receiverWindowSize - 1 else s.receiverWindowSize }

/-- The packet with its time and window set. -/
def stampPkt (now : UInt32) (pkt : Pkt) : Pkt :=
  (pktSetWindow (pktSetTimestamp pkt now).2 (UInt8.ofNat maxWindowSize)).2

/-- The walk of `check_for_RT`; `clock i` is the `time(NULL)` of its round `i`. -/
def findExpired (clock : ℕ → ℤ) : ℕ → Stack → Option Node
  | _, [] => none
  | i, runner :: next =>
    if runner.pkt.timestamp ≠ 0 then
      if clock i - runner.pkt.timestamp.toNat > RTlength then some runner
      else findExpired clock (i + 1) next
    else none

/-- What `check_for_RT` sets for the packet whose time is over. -/
def Sender.expire (s : Sender) (runner : Node) : Sender :=
  { s with
    seqnumToSend := runner.seqnum
    hasRTed := true
    lastpacketsSentCount :=
      if s.sendingStack.length = 1 then s.lastpacketsSentCount + 1 else s.lastpacketsSentCount }

/-- `check_for_RT`, and whether it returned 1. -/
def checkForRT (clock : ℕ → ℤ) (s : Sender) : Sender × Bool :=
  match findExpired clock 0 s.sendingStack with
  | some runner => (s.expire runner, true)
  | none => (s, false)

/-- `lastSeqnumAcked` and its counter, the window, and fast retransmit at the third equal ACK. -/
def countAck (s : Sender) (packet : Pkt) : Sender :=
  let s := { s with receiverWindowSize := pktGetWindow packet }
  if s.lastSeqnumAcked = packet.seqnum then
    let s := { s with lastSeqnumAckedCounter := s.lastSeqnumAckedCounter + 1 }
    if s.lastSeqnumAckedCounter = 2 then
      { s with seqnumToSend := s.lastSeqnumAcked, hasFastRetransmitted := true }
    else s
  else { s with lastSeqnumAckedCounter := 0, lastSeqnumAcked := packet.seqnum }

/-- The test in front of `stack_remove_acked`: the last ACK, or the packet before was sent. -/
def acceptsAck (totalPacketsToSend : ℤ) (sendingStack : Stack) (lastSeqnumAcked : UInt8) : Prop :=
  isTotal totalPacketsToSend lastSeqnumAcked ∨
    ∃ toCheck ∈ stackGetPkt sendingStack (lastSeqnumAcked - 1), toCheck.timestamp ≠ 0

instance (totalPacketsToSend : ℤ) (sendingStack : Stack) (lastSeqnumAcked : UInt8) :
    Decidable (acceptsAck totalPacketsToSend sendingStack lastSeqnumAcked) :=
  inferInstanceAs
    (Decidable (_ ∨ ∃ toCheck ∈ stackGetPkt sendingStack (lastSeqnumAcked - 1), _))

/-- The stack behind the test. -/
def removeAcked (totalPacketsToSend : ℤ) (sendingStack : Stack) (lastSeqnumAcked : UInt8) : Stack :=
  if acceptsAck totalPacketsToSend sendingStack lastSeqnumAcked then
    (stackRemoveAcked sendingStack lastSeqnumAcked).2
  else sendingStack

/-- The ACK branch of `process_response`. -/
def processAck (s : Sender) (packet : Pkt) : Sender × ℤ :=
  let s := countAck s packet
  let s := { s with
    sendingStack := removeAcked s.totalPacketsToSend s.sendingStack s.lastSeqnumAcked }
  if isTotal s.totalPacketsToSend s.lastSeqnumAcked ∧ s.sendingStack.length = 1 then (s, 1)
  else (s, 0)

/-- The NACK branch of `process_response`. -/
def processNack (s : Sender) (packet : Pkt) : Sender × ℤ :=
  let s := { s with
    receiverWindowSize := pktGetWindow packet
    seqnumToSend := packet.seqnum
    hasNACKed := true }
  if isTotal s.totalPacketsToSend s.seqnumToSend ∧ s.sendingStack.length = 1 then (s, 1)
  else (s, 0)

section Loop

variable [Zlib]

/-- The transmission of a packet and what follows it. -/
def sendNext (now : UInt32) (s : Sender) (nextPktToSend : Pkt) : Sender × List UInt8 :=
  let e := pktEncode (stampPkt now nextPktToSend) s.buf (16 + maxPayloadSize)
  let s := { s with
    totalPacketsSent :=
      if nextPktToSend.timestamp = 0 then s.totalPacketsSent + 1 else s.totalPacketsSent
    sendingStack := stackSetPkt s.sendingStack s.seqnumToSend e.pkt
    buf := e.buf }
  (s.advance, e.segment)

/-- The first part of an iteration, with what is written to the socket. -/
def transmit (now : UInt32) (s : Sender) : Sender × Option (List UInt8) :=
  if s.holdsBack then ({ s with pc := .wait }, none)
  else if ¬ isInRange s.lastSeqnumAcked s.seqnumToSend then ({ s with pc := .wait }, none)
  else if s.receiverWindowSize = 0 ∧ s.flagged = false then ({ s with pc := .wait }, none)
  else
    match stackGetPkt s.sendingStack s.seqnumToSend with
    | none => ({ s with pc := .wait }, none)
    | some nextPktToSend =>
      ({ (sendNext now s nextPktToSend).1 with pc := .wait },
        some (sendNext now s nextPktToSend).2)

/-- `process_response`: `none` when `read` fails. -/
def processResponse (s : Sender) (datagram : Option (List UInt8)) (junk : Buffer) : Sender × ℤ :=
  match datagram with
  | none => if s.totalPacketsToSend = s.totalPacketsSent then (s, -3) else (s, -2)
  | some datagram =>
    let justRead := min 12 datagram.length
    if 0 < justRead then
      match pktDecode (readInto junk 12 datagram) justRead pktNew with
      | (.pktOk, lastPktReceived) =>
        if lastPktReceived.type = .ack then processAck s lastPktReceived
        else if lastPktReceived.type = .nack then processNack s lastPktReceived
        else (s, -1)
      | (_, _) => (s, -1)
    else (s, 0)

/-- The inner loop with something to read. -/
def respond (s : Sender) (datagram : Option (List UInt8)) (junk : Buffer) : Sender :=
  let (s, statusCode) := processResponse s datagram junk
  if statusCode = 1 then endIteration s true
  else if statusCode = -2 then { s with pc := .failure }
  else if statusCode = -3 then endIteration s true
  else endIteration s false

/-- The inner loop with nothing to read: once more when the receiver's window is 0. -/
def wakeUp (clock : ℕ → ℤ) (s : Sender) : Sender :=
  let (s, expired) := checkForRT clock s
  if expired then endIteration s false
  else if s.receiverWindowSize = 0 then s
  else endIteration s false

end Loop

/-! ## What the parts can do -/

theorem endIteration_eq (s : Sender) (mainBreak : Bool) :
    ∃ pc, endIteration s mainBreak = { s with pc := pc } := by
  unfold endIteration loopHead
  split
  · exact ⟨_, rfl⟩
  · split <;> split <;> exact ⟨_, rfl⟩

@[simp] theorem endIteration_sendingStack (s : Sender) (mainBreak : Bool) :
    (endIteration s mainBreak).sendingStack = s.sendingStack := by
  obtain ⟨pc, hpc⟩ := endIteration_eq s mainBreak
  rw [hpc]

@[simp] theorem endIteration_totalPacketsSent (s : Sender) (mainBreak : Bool) :
    (endIteration s mainBreak).totalPacketsSent = s.totalPacketsSent := by
  obtain ⟨pc, hpc⟩ := endIteration_eq s mainBreak
  rw [hpc]

@[simp] theorem endIteration_totalPacketsToSend (s : Sender) (mainBreak : Bool) :
    (endIteration s mainBreak).totalPacketsToSend = s.totalPacketsToSend := by
  obtain ⟨pc, hpc⟩ := endIteration_eq s mainBreak
  rw [hpc]

@[simp] theorem endIteration_lastpacketsSentCount (s : Sender) (mainBreak : Bool) :
    (endIteration s mainBreak).lastpacketsSentCount = s.lastpacketsSentCount := by
  obtain ⟨pc, hpc⟩ := endIteration_eq s mainBreak
  rw [hpc]

/-- The main loop goes on while there is a packet, or it is left for one of three reasons. -/
theorem endIteration_pc (s : Sender) (mainBreak : Bool) :
    (endIteration s mainBreak).pc = .top ∧ s.sendingStack ≠ [] ∨
      (endIteration s mainBreak).pc = .success ∧
        (5 < s.lastpacketsSentCount ∨ s.sendingStack = [] ∨ mainBreak = true) := by
  have hlen : 0 < s.sendingStack.length ↔ s.sendingStack ≠ [] := List.length_pos_iff
  have hloop : ∀ b, (loopHead s b).pc = .top ∧ s.sendingStack ≠ [] ∨
      (loopHead s b).pc = .success ∧ (s.sendingStack = [] ∨ b = true) := by
    intro b
    unfold loopHead
    split
    · rename_i hc
      exact Or.inl ⟨rfl, hlen.mp hc.1⟩
    · rename_i hc
      refine Or.inr ⟨rfl, ?_⟩
      by_cases hnil : s.sendingStack = []
      · exact Or.inl hnil
      · exact Or.inr (by simpa using fun hb => hc ⟨hlen.mpr hnil, hb⟩)
  unfold endIteration
  split
  · rename_i h5
    exact Or.inr ⟨rfl, Or.inl h5⟩
  · split
    · rename_i hc
      rcases hloop false with htop | ⟨hpc, hwhy⟩
      · exact Or.inl htop
      · exact Or.inr ⟨hpc, Or.inr (hwhy.imp_right fun _ => hc.1)⟩
    · rcases hloop mainBreak with htop | ⟨hpc, hwhy⟩
      · exact Or.inl htop
      · exact Or.inr ⟨hpc, Or.inr hwhy⟩

theorem endIteration_ne_wait (s : Sender) (mainBreak : Bool) :
    (endIteration s mainBreak).pc ≠ .wait := by
  rcases endIteration_pc s mainBreak with ⟨hpc, -⟩ | ⟨hpc, -⟩ <;> simp [hpc]

/-- The loop goes on only below six timeouts of the last packet. -/
theorem endIteration_top {s : Sender} {mainBreak : Bool}
    (h : (endIteration s mainBreak).pc = .top) : s.lastpacketsSentCount ≤ 5 := by
  by_contra h5
  rw [endIteration, if_pos (by omega)] at h
  exact absurd h (by simp)

/-- `check_for_RT` finds a packet whose time is over, or leaves everything as it is. -/
theorem checkForRT_cases (clock : ℕ → ℤ) (s : Sender) :
    (∃ runner ∈ findExpired clock 0 s.sendingStack,
      checkForRT clock s = (s.expire runner, true)) ∨
      findExpired clock 0 s.sendingStack = none ∧ checkForRT clock s = (s, false) := by
  unfold checkForRT
  cases h : findExpired clock 0 s.sendingStack with
  | none => exact Or.inr ⟨rfl, rfl⟩
  | some runner => exact Or.inl ⟨runner, rfl, rfl⟩

/-- With nothing to read: a timer has expired, or nothing changes but `pc`. -/
theorem wakeUp_cases (clock : ℕ → ℤ) (s : Sender) :
    (∃ runner ∈ findExpired clock 0 s.sendingStack,
      wakeUp clock s = endIteration (s.expire runner) false) ∨
      wakeUp clock s = s ∨ wakeUp clock s = endIteration s false := by
  rcases checkForRT_cases clock s with ⟨runner, hfound, hc⟩ | ⟨-, hc⟩
  · refine Or.inl ⟨runner, hfound, ?_⟩
    simp only [wakeUp, hc, if_true]
  · simp only [wakeUp, hc, Bool.false_eq_true, if_false]
    split
    · exact Or.inr (Or.inl rfl)
    · exact Or.inr (Or.inr rfl)

/-- What can change with nothing to read. -/
theorem wakeUp_eq (clock : ℕ → ℤ) (s : Sender) :
    ∃ seqnumToSend hasRTed lastpacketsSentCount pc, wakeUp clock s = { s with
      seqnumToSend := seqnumToSend
      hasRTed := hasRTed
      lastpacketsSentCount := lastpacketsSentCount
      pc := pc } := by
  rcases wakeUp_cases clock s with ⟨runner, -, hw⟩ | hw | hw
  · obtain ⟨pc, hpc⟩ := endIteration_eq (s.expire runner) false
    rw [hw, hpc]
    exact ⟨runner.seqnum, true, _, pc, rfl⟩
  · rw [hw]
    exact ⟨s.seqnumToSend, s.hasRTed, s.lastpacketsSentCount, s.pc, rfl⟩
  · obtain ⟨pc, hpc⟩ := endIteration_eq s false
    rw [hw, hpc]
    exact ⟨s.seqnumToSend, s.hasRTed, s.lastpacketsSentCount, pc, rfl⟩

/-- The found packet was sent. -/
theorem findExpired_some {clock : ℕ → ℤ} {i : ℕ} {stack : Stack} {runner : Node}
    (h : findExpired clock i stack = some runner) :
    ∃ k : ℕ, stack[k]? = some runner ∧ runner.pkt.timestamp ≠ 0 := by
  induction stack generalizing i with
  | nil => exact absurd h (by simp [findExpired])
  | cons node next ih =>
    rw [findExpired] at h
    split at h
    · rename_i hts
      split at h
      · rw [Option.some.injEq] at h
        exact ⟨0, by rw [List.getElem?_cons_zero, h], h ▸ hts⟩
      · obtain ⟨k, hk, hsent⟩ := ih h
        exact ⟨k + 1, by rwa [List.getElem?_cons_succ], hsent⟩
    · exact absurd h (by simp)

/-- What `countAck` leaves: the number of the ACK, its window, and the rest but the fields of
fast retransmit. -/
theorem countAck_eq (s : Sender) (packet : Pkt) :
    ∃ counter, countAck s packet = { s with
        receiverWindowSize := pktGetWindow packet
        lastSeqnumAcked := packet.seqnum
        lastSeqnumAckedCounter := counter } ∨
      s.lastSeqnumAcked = packet.seqnum ∧ countAck s packet = { s with
        receiverWindowSize := pktGetWindow packet
        lastSeqnumAcked := packet.seqnum
        lastSeqnumAckedCounter := counter
        seqnumToSend := packet.seqnum
        hasFastRetransmitted := true } := by
  unfold countAck
  by_cases heq : s.lastSeqnumAcked = packet.seqnum
  · simp only [if_pos heq]
    refine ⟨s.lastSeqnumAckedCounter + 1, ?_⟩
    split
    · refine Or.inr ⟨heq, ?_⟩
      rw [← heq]
    · refine Or.inl ?_
      rw [← heq]
  · simp only [if_neg heq]
    exact ⟨0, Or.inl rfl⟩

/-- The ACK branch: count, remove, and report the last ACK. -/
theorem processAck_eq (s : Sender) (packet : Pkt) :
    processAck s packet =
      ({ countAck s packet with
         sendingStack := removeAcked s.totalPacketsToSend s.sendingStack packet.seqnum },
        if isTotal s.totalPacketsToSend packet.seqnum ∧
          (removeAcked s.totalPacketsToSend s.sendingStack packet.seqnum).length = 1 then 1
        else 0) := by
  obtain ⟨counter, hcount | ⟨-, hcount⟩⟩ := countAck_eq s packet
  all_goals
    simp only [processAck, hcount]
    split <;> rfl

/-- The NACK branch leaves the stack and the last ACK. -/
theorem processNack_eq (s : Sender) (packet : Pkt) :
    processNack s packet =
      ({ s with
         receiverWindowSize := pktGetWindow packet
         seqnumToSend := packet.seqnum
         hasNACKed := true },
        if isTotal s.totalPacketsToSend packet.seqnum ∧ s.sendingStack.length = 1 then 1
        else 0) := by
  simp only [processNack]
  split <;> rfl

section Transmit

variable [Zlib]

/-- The three tests in front of a transmission. -/
structure Sender.MaySend (s : Sender) : Prop where
  notHeld : ¬ s.holdsBack
  inRange : isInRange s.lastSeqnumAcked s.seqnumToSend
  window : s.receiverWindowSize ≠ 0 ∨ s.flagged = true

/-- Either nothing is sent and only `pc` changes, or the tests passed and the packet was found. -/
theorem transmit_cases (now : UInt32) (s : Sender) :
    transmit now s = ({ s with pc := .wait }, none) ∨
      ∃ pkt, s.MaySend ∧ stackGetPkt s.sendingStack s.seqnumToSend = some pkt ∧
        transmit now s =
          ({ (sendNext now s pkt).1 with pc := .wait }, some (sendNext now s pkt).2) := by
  unfold transmit
  by_cases hheld : s.holdsBack
  · exact Or.inl (if_pos hheld)
  by_cases hrange : isInRange s.lastSeqnumAcked s.seqnumToSend
  · by_cases hwin : s.receiverWindowSize = 0 ∧ s.flagged = false
    · rw [if_neg hheld, if_neg (not_not.mpr hrange), if_pos hwin]
      exact Or.inl rfl
    · rw [if_neg hheld, if_neg (not_not.mpr hrange), if_neg hwin]
      cases hget : stackGetPkt s.sendingStack s.seqnumToSend with
      | none => exact Or.inl rfl
      | some pkt =>
        refine Or.inr ⟨pkt, ⟨hheld, hrange, ?_⟩, rfl, rfl⟩
        by_cases hw : s.receiverWindowSize = 0
        · exact Or.inr (by simpa [hw] using hwin)
        · exact Or.inl hw
  · rw [if_neg hheld, if_pos hrange]
    exact Or.inl rfl

/-- With the tests passed, the packet is sent. -/
theorem transmit_of_maySend {now : UInt32} {s : Sender} {pkt : Pkt} (h : s.MaySend)
    (hget : stackGetPkt s.sendingStack s.seqnumToSend = some pkt) :
    transmit now s =
      ({ (sendNext now s pkt).1 with pc := .wait }, some (sendNext now s pkt).2) := by
  have hwin : ¬ (s.receiverWindowSize = 0 ∧ s.flagged = false) := by
    rintro ⟨hw, hf⟩
    rcases h.window with hc | hc
    · exact hc hw
    · rw [hf] at hc
      exact absurd hc (by simp)
  unfold transmit
  rw [if_neg h.notHeld, if_neg (not_not.mpr h.inRange), if_neg hwin, hget]

end Transmit

end Trtp
