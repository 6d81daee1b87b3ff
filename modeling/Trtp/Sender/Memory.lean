import Trtp.Receiver.Memory
import Trtp.Sender.Retry

/-!
# The sender's packets in memory (`read_write_loop_sender.c:56-308`)

The sender's loop with its packets behind pointers, as `Trtp.Receiver.Memory` has the receiver's.
`stack_get_pkt` returns a pointer, through which the main loop writes time, window and checksum into
the packet; every reply that is read is a packet of its own; `stack_remove_acked` frees what is
acknowledged. Every function returns an `Option`: `none` is an access to a packet that was freed, a
second `pkt_del` of it, or `check_for_RT` with no packet in the stack.

`Owned m others stack`: the packets of `stack` are where the slots of `m` point, and allocated are
these and `others`. Then every part of the loop succeeds, and what it does is what
`Trtp.Sender.Step` says of the sender without pointers (`Sender.view`):

* `Owned.transmit`, `Owned.sendNext`: **what is written through a pointer is written into the
  packet of the stack, and into no other**.
* `Owned.processResponse`: **a reply is freed in every branch**; the packets it acknowledges are
  freed once.
* `Owned.wakeUp`, `Owned.enter`: nothing is allocated or freed.

A packet and its payload are one block, as there.
-/

namespace Trtp.Mem

open Trtp.Run Trtp.Bytes Trtp.Blocks

/-! ## The stack of pointers -/

/-- `stack_get_pkt`. -/
def stackGetPkt : List Slot → UInt8 → Option Ptr
  | [], _ => none
  | runner :: next, seqnum =>
    if runner.seqnum ≠ seqnum then stackGetPkt next seqnum else some runner.pkt

/-- `stack_remove_acked`, with the packets. -/
def stackRemoveAcked : List Slot → UInt8 → Packets → Option (ℕ × List Slot × Packets)
  | [], _, packets => some (0, [], packets)
  | first :: next, seqnum, packets =>
    if seqnum ≠ first.seqnum then do
      let packets ← free packets first.pkt
      let (count, stack, packets) ← stackRemoveAcked next seqnum packets
      return (count + 1, stack, packets)
    else some (0, first :: next, packets)

/-- The walk of `check_for_RT`. -/
def findExpired (clock : ℕ → ℤ) : ℕ → List Slot → Packets → Option (Option Slot)
  | _, [], _ => some none
  | i, runner :: next, packets => do
    let pkt ← packets runner.pkt
    if pkt.timestamp ≠ 0 then
      if clock i - pkt.timestamp.toNat > RTlength then some (some runner)
      else findExpired clock (i + 1) next packets
    else some none

variable {packets : Packets} {slots : List Slot} {stack : Stack}

/-- `NULL` at both levels, or a pointer to the packet, and a write through it changes that packet
of the stack. -/
theorem stackGetPkt_points (h : List.Forall₂ (Points packets) slots stack) (seqnum : UInt8) :
    stackGetPkt slots seqnum = none ∧ Trtp.stackGetPkt stack seqnum = none ∨
      ∃ p pkt, stackGetPkt slots seqnum = some p ∧ Trtp.stackGetPkt stack seqnum = some pkt ∧
        p ∈ slots.map Slot.pkt ∧ packets p = some pkt ∧
        ((slots.map Slot.pkt).Nodup → ∀ pkt', List.Forall₂
          (Points (Function.update packets p (some pkt'))) slots
          (stackSetPkt stack seqnum pkt')) := by
  induction h with
  | nil => exact Or.inl ⟨rfl, rfl⟩
  | @cons runner node slots stack hrunner hrest ih =>
    rw [stackGetPkt, Trtp.stackGetPkt, hrunner.2]
    by_cases hne : node.seqnum ≠ seqnum
    · rw [if_pos hne, if_pos hne]
      rcases ih with ⟨hs, hn⟩ | ⟨p, pkt, hs, hn, hmem, hp, hset⟩
      · exact Or.inl ⟨hs, hn⟩
      · refine Or.inr ⟨p, pkt, hs, hn, List.mem_cons_of_mem _ hmem, hp, fun hnodup pkt' => ?_⟩
        rw [List.map_cons, List.nodup_cons] at hnodup
        rw [stackSetPkt, if_pos hne]
        refine List.Forall₂.cons ⟨?_, hrunner.2⟩ (hset hnodup.2 pkt')
        rw [Function.update_of_ne fun heq : runner.pkt = p => hnodup.1 (heq ▸ hmem)]
        exact hrunner.1
    · rw [if_neg hne, if_neg hne]
      refine Or.inr ⟨runner.pkt, node.pkt, rfl, rfl, List.mem_cons_self, hrunner.1,
        fun hnodup pkt' => ?_⟩
      rw [List.map_cons, List.nodup_cons] at hnodup
      rw [stackSetPkt, if_neg hne]
      exact List.Forall₂.cons ⟨Function.update_self _ _ _, hrunner.2⟩
        (points_update hrest hnodup.1 (some pkt'))

/-- **What is acknowledged is freed**, each packet once. -/
theorem stackRemoveAcked_points {others : List Ptr}
    (howns : Owns packets (slots.map Slot.pkt ++ others))
    (h : List.Forall₂ (Points packets) slots stack) (seqnum : UInt8) :
    ∃ slots' packets', stackRemoveAcked slots seqnum packets =
        some ((Trtp.stackRemoveAcked stack seqnum).1, slots', packets') ∧
      Owns packets' (slots'.map Slot.pkt ++ others) ∧
      List.Forall₂ (Points packets') slots' (Trtp.stackRemoveAcked stack seqnum).2 := by
  induction slots generalizing packets stack with
  | nil =>
    cases h
    exact ⟨[], packets, rfl, howns, List.Forall₂.nil⟩
  | cons first slots ih =>
    cases h with
    | @cons _ node _ stack hfirst hrest =>
      rw [stackRemoveAcked, Trtp.stackRemoveAcked, hfirst.2]
      by_cases hne : seqnum ≠ node.seqnum
      · rw [if_pos hne, if_pos hne]
        rw [List.map_cons, List.cons_append] at howns
        have hnotMem := (List.nodup_cons.mp howns.nodup).1
        obtain ⟨slots', packets', hremove, howns', hpoints⟩ :=
          ih howns.free (points_update hrest (fun hm => hnotMem (List.mem_append_left _ hm)) none)
        refine ⟨slots', packets', ?_, howns', hpoints⟩
        simp only [free_eq hfirst.1, hremove, Option.bind_eq_bind, Option.bind_some,
          Option.pure_def]
      · rw [if_neg hne, if_neg hne]
        exact ⟨first :: slots, packets, rfl, howns, List.Forall₂.cons hfirst hrest⟩

/-- The walk finds the slot of the packet whose time is over. -/
theorem findExpired_points (clock : ℕ → ℤ) (i : ℕ)
    (h : List.Forall₂ (Points packets) slots stack) :
    findExpired clock i slots packets = some none ∧ Trtp.findExpired clock i stack = none ∨
      ∃ slot node, findExpired clock i slots packets = some (some slot) ∧
        Trtp.findExpired clock i stack = some node ∧ slot.seqnum = node.seqnum := by
  induction h generalizing i with
  | nil => exact Or.inl ⟨rfl, rfl⟩
  | @cons runner node slots stack hrunner hrest ih =>
    rw [findExpired, Trtp.findExpired, hrunner.1]
    simp only [Option.bind_eq_bind, Option.bind_some]
    by_cases hts : node.pkt.timestamp ≠ 0
    · rw [if_pos hts, if_pos hts]
      by_cases hover : clock i - node.pkt.timestamp.toNat > RTlength
      · rw [if_pos hover, if_pos hover]
        exact Or.inr ⟨runner, node, rfl, rfl, hrunner.2⟩
      · rw [if_neg hover, if_neg hover]
        exact ih (i + 1)
    · rw [if_neg hts, if_neg hts]
      exact Or.inl ⟨rfl, rfl⟩

/-! ## The sender with pointers -/

/-- The globals of the sender and the locals of its main loop, with its packets. -/
structure Sender where
  packets : Packets
  sendingStack : List Slot
  seqnumToSend : UInt8
  lastSeqnumAcked : UInt8
  lastSeqnumAckedCounter : ℕ
  receiverWindowSize : UInt8
  totalPacketsToSend : ℤ
  totalPacketsSent : ℤ
  hasRTed : Bool
  hasNACKed : Bool
  hasFastRetransmitted : Bool
  lastpacketsSentCount : ℕ
  lastEncodedSeqnum : UInt8
  buf : List UInt8
  pc : Pc

/-- Some retransmission was asked for. -/
def Sender.flagged (s : Sender) : Bool := s.hasRTed || s.hasNACKed || s.hasFastRetransmitted

/-- The condition of the main loop. -/
def loopHead (s : Sender) (mainBreak : Bool) : Sender :=
  if 0 < s.sendingStack.length ∧ mainBreak = false then { s with pc := .top }
  else { s with pc := .success }

/-- Behind the inner loop. -/
def endIteration (s : Sender) (mainBreak : Bool) : Sender :=
  if 5 < s.lastpacketsSentCount then { s with pc := .success }
  else if mainBreak ∧ ¬ isTotal s.totalPacketsToSend s.lastSeqnumAcked ∧
      s.sendingStack.length < 256 then
    loopHead s false
  else loopHead s mainBreak

/-- The head of `read_write_loop_sender`. -/
def Sender.enter (s : Sender) (buf : List UInt8) : Sender :=
  loopHead
    { s with
      totalPacketsToSend := Int.bmod s.sendingStack.length (2 ^ 32)
      totalPacketsSent := 0
      receiverWindowSize := 1
      lastEncodedSeqnum := 0
      seqnumToSend := 0
      lastSeqnumAcked := 0
      lastSeqnumAckedCounter := 0
      buf := buf }
    false

/-- The globals behind `read_file`. -/
def Sender.boot (packets : Packets) (stack : List Slot) : Sender :=
  { packets := packets, sendingStack := stack, seqnumToSend := 0, lastSeqnumAcked := 0
    lastSeqnumAckedCounter := 0, receiverWindowSize := 0, totalPacketsToSend := 0
    totalPacketsSent := 0, hasRTed := false, hasNACKed := false, hasFastRetransmitted := false
    lastpacketsSentCount := 0, lastEncodedSeqnum := 0, buf := [], pc := .top }

/-- "Wait to send last packet". -/
def Sender.holdsBack (s : Sender) : Option Bool :=
  if s.sendingStack.length < 256 ∧ s.seqnumToSend ≠ s.lastSeqnumAcked then
    match stackGetPkt s.sendingStack s.seqnumToSend with
    | none => some false
    | some p => do return decide ((← s.packets p).length = 0)
  else some false

/-- "updating values for next packet to send". -/
def Sender.advance (s : Sender) : Sender :=
  if s.flagged then
    { s with
      seqnumToSend := incrementSeqnum s.lastEncodedSeqnum
      hasRTed := false
      hasNACKed := false
      hasFastRetransmitted := false }
  else
    { s with
      lastEncodedSeqnum := s.seqnumToSend
      seqnumToSend := incrementSeqnum s.seqnumToSend
      receiverWindowSize :=
        if 0 < s.receiverWindowSize then s.receiverWindowSize - 1 else s.receiverWindowSize }

/-- What `check_for_RT` sets for the packet whose time is over. -/
def Sender.expire (s : Sender) (runner : Slot) : Sender :=
  { s with
    seqnumToSend := runner.seqnum
    hasRTed := true
    lastpacketsSentCount :=
      if s.sendingStack.length = 1 then s.lastpacketsSentCount + 1 else s.lastpacketsSentCount }

/-- `check_for_RT`, and whether it returned 1. The packet of `first` is read, which must not be
`NULL`. -/
def checkForRT (clock : ℕ → ℤ) (s : Sender) : Option (Sender × Bool) :=
  if s.sendingStack = [] then none
  else do
    match ← findExpired clock 0 s.sendingStack s.packets with
    | some runner => return (s.expire runner, true)
    | none => return (s, false)

/-- `lastSeqnumAcked` and its counter, the window, and fast retransmit at the third equal ACK. -/
def countAck (s : Sender) (packet : Pkt) : Sender :=
  let s := { s with receiverWindowSize := pktGetWindow packet }
  if s.lastSeqnumAcked = packet.seqnum then
    let s := { s with lastSeqnumAckedCounter := s.lastSeqnumAckedCounter + 1 }
    if s.lastSeqnumAckedCounter = 2 then
      { s with seqnumToSend := s.lastSeqnumAcked, hasFastRetransmitted := true }
    else s
  else { s with lastSeqnumAckedCounter := 0, lastSeqnumAcked := packet.seqnum }

/-- The test in front of `stack_remove_acked`. -/
def acceptsAck (s : Sender) : Option Bool :=
  if isTotal s.totalPacketsToSend s.lastSeqnumAcked then some true
  else
    match stackGetPkt s.sendingStack (s.lastSeqnumAcked - 1) with
    | none => some false
    | some toCheck => do return decide ((← s.packets toCheck).timestamp ≠ 0)

/-- The stack and the packets behind the test. -/
def removeAcked (s : Sender) : Option Sender := do
  if ← acceptsAck s then
    let (_, stack, packets) ← stackRemoveAcked s.sendingStack s.lastSeqnumAcked s.packets
    return { s with sendingStack := stack, packets := packets }
  else return s

/-- The ACK branch of `process_response`. -/
def processAck (s : Sender) (p : Ptr) : Option (Sender × ℤ) := do
  let packet ← s.packets p
  let s ← removeAcked (countAck s packet)
  if isTotal s.totalPacketsToSend s.lastSeqnumAcked ∧ s.sendingStack.length = 1 then return (s, 1)
  else return (s, 0)

/-- The NACK branch of `process_response`. -/
def processNack (s : Sender) (p : Ptr) : Option (Sender × ℤ) := do
  let packet ← s.packets p
  let s := { s with
    receiverWindowSize := pktGetWindow packet
    seqnumToSend := packet.seqnum
    hasNACKed := true }
  if isTotal s.totalPacketsToSend s.seqnumToSend ∧ s.sendingStack.length = 1 then return (s, 1)
  else return (s, 0)

/-- The branches of `process_response`. -/
def processReply (s : Sender) (p : Ptr) : Option (Sender × ℤ) := do
  let lastPktReceived ← s.packets p
  if lastPktReceived.type = .ack then processAck s p
  else if lastPktReceived.type = .nack then processNack s p
  else return (s, -1)

/-- `pkt_del` of a reply. -/
def Sender.del (s : Sender) (p : Ptr) : Option Sender := do
  return { s with packets := ← free s.packets p }

section Loop

variable [Zlib]

/-- The transmission of a packet and what follows it. -/
def sendNext (now : UInt32) (s : Sender) (p : Ptr) : Option (Sender × List UInt8) := do
  let nextPktToSend ← s.packets p
  let e := pktEncode (stampPkt now nextPktToSend) s.buf (16 + maxPayloadSize)
  let s := { s with
    totalPacketsSent :=
      if nextPktToSend.timestamp = 0 then s.totalPacketsSent + 1 else s.totalPacketsSent
    packets := Function.update s.packets p (some e.pkt)
    buf := e.buf }
  return (s.advance, e.segment)

/-- The first part of an iteration, with what is written to the socket. -/
def transmit (now : UInt32) (s : Sender) : Option (Sender × Option (List UInt8)) := do
  if ← s.holdsBack then return ({ s with pc := .wait }, none)
  else if ¬ isInRange s.lastSeqnumAcked s.seqnumToSend then return ({ s with pc := .wait }, none)
  else if s.receiverWindowSize = 0 ∧ s.flagged = false then return ({ s with pc := .wait }, none)
  else
    match stackGetPkt s.sendingStack s.seqnumToSend with
    | none => return ({ s with pc := .wait }, none)
    | some p =>
      let (s, segment) ← sendNext now s p
      return ({ s with pc := .wait }, some segment)

/-- `process_response`, where `pkt_new` returns `p`. -/
def processResponse (s : Sender) (datagram : Option (List UInt8)) (junk : Buffer) (p : Ptr) :
    Option (Sender × ℤ) :=
  match datagram with
  | none => if s.totalPacketsToSend = s.totalPacketsSent then some (s, -3) else some (s, -2)
  | some datagram =>
    let justRead := min 12 datagram.length
    if 0 < justRead then
      match pktDecode (readInto junk 12 datagram) justRead pktNew with
      | (.pktOk, lastPktReceived) => do
        let s := { s with packets := Function.update s.packets p (some lastPktReceived) }
        let (s, statusCode) ← processReply s p
        return (← s.del p, statusCode)
      | (_, lastPktReceived) => do
        let s := { s with packets := Function.update s.packets p (some lastPktReceived) }
        return (← s.del p, -1)
    else some (s, 0)

/-- The inner loop with something to read. -/
def respond (s : Sender) (datagram : Option (List UInt8)) (junk : Buffer) (p : Ptr) :
    Option Sender := do
  let (s, statusCode) ← processResponse s datagram junk p
  if statusCode = 1 then return endIteration s true
  else if statusCode = -2 then return { s with pc := .failure }
  else if statusCode = -3 then return endIteration s true
  else return endIteration s false

/-- The inner loop with nothing to read. -/
def wakeUp (clock : ℕ → ℤ) (s : Sender) : Option Sender := do
  let (s, expired) ← checkForRT clock s
  if expired then return endIteration s false
  else if s.receiverWindowSize = 0 then return s
  else return endIteration s false

end Loop

/-! ## What the pointers stand for -/

/-- The sender without pointers, with a stack of packets. -/
def Sender.view (m : Sender) (stack : Stack) : Trtp.Sender :=
  { sendingStack := stack, seqnumToSend := m.seqnumToSend, lastSeqnumAcked := m.lastSeqnumAcked
    lastSeqnumAckedCounter := m.lastSeqnumAckedCounter, receiverWindowSize := m.receiverWindowSize
    totalPacketsToSend := m.totalPacketsToSend, totalPacketsSent := m.totalPacketsSent
    hasRTed := m.hasRTed, hasNACKed := m.hasNACKed, hasFastRetransmitted := m.hasFastRetransmitted
    lastpacketsSentCount := m.lastpacketsSentCount, lastEncodedSeqnum := m.lastEncodedSeqnum
    buf := m.buf, pc := m.pc }

/-- The packets of the stack are where the slots say, and allocated are these and some others. -/
structure Owned (m : Sender) (others : List Ptr) (stack : Stack) : Prop where
  owns : Owns m.packets (m.sendingStack.map Slot.pkt ++ others)
  points : List.Forall₂ (Points m.packets) m.sendingStack stack

variable {m m' : Sender} {others : List Ptr} {p : Ptr}

theorem Owned.congr (h : Owned m others stack) (hpackets : m'.packets = m.packets)
    (hstack : m'.sendingStack = m.sendingStack) : Owned m' others stack := by
  refine ⟨?_, ?_⟩
  · rw [hpackets, hstack]
    exact h.owns
  · rw [hpackets, hstack]
    exact h.points

theorem Owned.nodup (h : Owned m others stack) : (m.sendingStack.map Slot.pkt).Nodup :=
  h.owns.nodup.of_append_left

/-- `pkt_new`. -/
theorem Owned.alloc (h : Owned m others stack) (hnew : m.packets p = none) (packet : Pkt) :
    Owned { m with packets := Function.update m.packets p (some packet) } (p :: others) stack where
  owns := (h.owns.alloc hnew packet).perm List.perm_middle.symm
  points := points_update h.points
    (fun hm => h.owns.notMem hnew (List.mem_append_left _ hm)) (some packet)

/-- `pkt_del` of a packet that is not in the stack. -/
theorem Owned.del (h : Owned m (p :: others) stack) :
    ∃ packets, m.del p = some { m with packets := packets } ∧
      Owned { m with packets := packets } others stack := by
  have howns : Owns m.packets (p :: (m.sendingStack.map Slot.pkt ++ others)) :=
    h.owns.perm List.perm_middle
  obtain ⟨packet, hpacket⟩ := howns.exists_block List.mem_cons_self
  refine ⟨Function.update m.packets p none, ?_, howns.free, points_update h.points
    (fun hm => (List.nodup_cons.mp howns.nodup).1 (List.mem_append_left _ hm)) none⟩
  rw [Sender.del, free_eq hpacket]
  rfl

/-! ### The parts that do not touch packets -/

theorem advance_view (m : Sender) (stack : Stack) :
    m.advance.view stack = (m.view stack).advance := by
  unfold Sender.advance Trtp.Sender.advance
  rw [show (m.view stack).flagged = m.flagged from rfl]
  split <;> rfl

theorem loopHead_view (hlen : m.sendingStack.length = stack.length) (mainBreak : Bool) :
    (loopHead m mainBreak).view stack = Trtp.loopHead (m.view stack) mainBreak := by
  unfold loopHead Trtp.loopHead
  rw [hlen, show (m.view stack).sendingStack = stack from rfl]
  split <;> rfl

theorem endIteration_view (hlen : m.sendingStack.length = stack.length) (mainBreak : Bool) :
    (endIteration m mainBreak).view stack = Trtp.endIteration (m.view stack) mainBreak := by
  unfold endIteration
  rw [hlen]
  by_cases h5 : 5 < m.lastpacketsSentCount
  · rw [if_pos h5]
    exact (if_pos h5).symm
  · rw [if_neg h5]
    by_cases hback : mainBreak ∧ ¬ isTotal m.totalPacketsToSend m.lastSeqnumAcked ∧
        stack.length < 256
    · rw [if_pos hback, loopHead_view hlen]
      exact ((if_neg h5).trans (if_pos hback)).symm
    · rw [if_neg hback, loopHead_view hlen]
      exact ((if_neg h5).trans (if_neg hback)).symm

theorem endIteration_same (m : Sender) (mainBreak : Bool) :
    (endIteration m mainBreak).packets = m.packets ∧
      (endIteration m mainBreak).sendingStack = m.sendingStack := by
  unfold endIteration loopHead
  split
  · exact ⟨rfl, rfl⟩
  · split <;> split <;> exact ⟨rfl, rfl⟩

/-- The end of an iteration. -/
theorem Owned.endIteration (h : Owned m others stack) (mainBreak : Bool) :
    Owned (endIteration m mainBreak) others stack ∧
      (Mem.endIteration m mainBreak).view stack = Trtp.endIteration (m.view stack) mainBreak :=
  ⟨h.congr (endIteration_same m mainBreak).1 (endIteration_same m mainBreak).2,
    endIteration_view h.points.length_eq mainBreak⟩

theorem countAck_view (m : Sender) (packet : Pkt) (stack : Stack) :
    (countAck m packet).view stack = Trtp.countAck (m.view stack) packet := by
  unfold countAck Trtp.countAck
  by_cases heq : m.lastSeqnumAcked = packet.seqnum
  · by_cases hthird : m.lastSeqnumAckedCounter + 1 = 2
    · simp only [if_pos heq, if_pos hthird, Sender.view]
      exact ((if_pos heq).trans (if_pos hthird)).symm
    · simp only [if_pos heq, if_neg hthird, Sender.view]
      exact ((if_pos heq).trans (if_neg hthird)).symm
  · simp only [if_neg heq, Sender.view]
    exact (if_neg heq).symm

theorem countAck_same (m : Sender) (packet : Pkt) :
    (countAck m packet).packets = m.packets ∧
      (countAck m packet).sendingStack = m.sendingStack := by
  unfold countAck
  simp only
  split
  · split <;> exact ⟨rfl, rfl⟩
  · exact ⟨rfl, rfl⟩

/-! ### The parts that do -/

/-- A timer that expired is that of the packet the sender without pointers finds. -/
theorem Owned.wakeUp (h : Owned m others stack) (hne : stack ≠ []) (clock : ℕ → ℤ) :
    ∃ m', wakeUp clock m = some m' ∧ Owned m' others stack ∧
      m'.view stack = Trtp.wakeUp clock (m.view stack) := by
  have hlen := h.points.length_eq
  have hsome : m.sendingStack ≠ [] := by
    rw [← List.length_pos_iff, hlen, List.length_pos_iff]
    exact hne
  rcases findExpired_points clock 0 h.points with ⟨hs, hn⟩ | ⟨slot, node, hs, hn, hseq⟩
  · have hcheck : Trtp.checkForRT clock (m.view stack) = (m.view stack, false) := by
      unfold Trtp.checkForRT
      rw [show (m.view stack).sendingStack = stack from rfl, hn]
    unfold Mem.wakeUp checkForRT Trtp.wakeUp
    rw [hcheck, if_neg hsome]
    simp only [hs, Option.bind_eq_bind, Option.bind_some, Option.pure_def, Bool.false_eq_true,
      if_false]
    by_cases hwin : m.receiverWindowSize = 0
    · rw [if_pos hwin]
      exact ⟨m, rfl, h, (if_pos hwin).symm⟩
    · rw [if_neg hwin]
      obtain ⟨howned, hview⟩ := h.endIteration false
      exact ⟨_, rfl, howned, hview.trans (if_neg hwin).symm⟩
  · have hexpire : (m.expire slot).view stack = (m.view stack).expire node := by
      unfold Sender.expire Trtp.Sender.expire
      rw [hlen, hseq]
      rfl
    have hcheck : Trtp.checkForRT clock (m.view stack) = ((m.expire slot).view stack, true) := by
      unfold Trtp.checkForRT
      rw [show (m.view stack).sendingStack = stack from rfl, hn, hexpire]
    have hexpired : Owned (m.expire slot) others stack := h.congr rfl rfl
    obtain ⟨howned, hview⟩ := hexpired.endIteration false
    unfold Mem.wakeUp checkForRT Trtp.wakeUp
    rw [hcheck, if_neg hsome]
    simp only [hs, Option.bind_eq_bind, Option.bind_some, Option.pure_def, if_true]
    exact ⟨_, rfl, howned, hview⟩

theorem holdsBack_view (h : Owned m others stack) :
    m.holdsBack = some (decide (m.view stack).holdsBack) := by
  unfold Sender.holdsBack
  rw [h.points.length_eq]
  by_cases hc : stack.length < 256 ∧ m.seqnumToSend ≠ m.lastSeqnumAcked
  · rw [if_pos hc]
    rcases stackGetPkt_points h.points m.seqnumToSend with
      ⟨hs, hn⟩ | ⟨p, pkt, hs, hn, -, hp, -⟩
    · have hnot : ¬ (m.view stack).holdsBack := by
        rintro ⟨-, -, pkt, hpkt, -⟩
        rw [show Trtp.stackGetPkt (m.view stack).sendingStack (m.view stack).seqnumToSend = none
          from hn] at hpkt
        exact absurd hpkt (by simp)
      rw [hs, decide_eq_false hnot]
    · have hiff : (m.view stack).holdsBack ↔ pkt.length = 0 := by
        constructor
        · rintro ⟨-, -, pkt', hpkt', hzero⟩
          rw [show Trtp.stackGetPkt (m.view stack).sendingStack (m.view stack).seqnumToSend =
            some pkt from hn, Option.mem_some_iff] at hpkt'
          rw [hpkt']
          exact hzero
        · exact fun hzero => ⟨hc.1, hc.2, pkt, hn, hzero⟩
      simp only [hs, hp, hiff, Option.bind_eq_bind, Option.bind_some, Option.pure_def]
  · rw [if_neg hc, decide_eq_false fun hheld => hc ⟨hheld.1, hheld.2.1⟩]

theorem acceptsAck_view (h : Owned m others stack) :
    acceptsAck m =
      some (decide (Trtp.acceptsAck m.totalPacketsToSend stack m.lastSeqnumAcked)) := by
  unfold acceptsAck
  by_cases htotal : isTotal m.totalPacketsToSend m.lastSeqnumAcked
  · have hacc : Trtp.acceptsAck m.totalPacketsToSend stack m.lastSeqnumAcked := Or.inl htotal
    rw [if_pos htotal, decide_eq_true hacc]
  · rw [if_neg htotal]
    rcases stackGetPkt_points h.points (m.lastSeqnumAcked - 1) with
      ⟨hs, hn⟩ | ⟨p, pkt, hs, hn, -, hp, -⟩
    · have hnot : ¬ Trtp.acceptsAck m.totalPacketsToSend stack m.lastSeqnumAcked := by
        rintro (hacc | ⟨pkt, hpkt, -⟩)
        · exact htotal hacc
        · rw [hn] at hpkt
          exact absurd hpkt (by simp)
      rw [hs, decide_eq_false hnot]
    · have hiff : Trtp.acceptsAck m.totalPacketsToSend stack m.lastSeqnumAcked ↔
          pkt.timestamp ≠ 0 := by
        constructor
        · rintro (hacc | ⟨pkt', hpkt', hts⟩)
          · exact absurd hacc htotal
          · rw [hn, Option.mem_some_iff] at hpkt'
            rw [hpkt']
            exact hts
        · exact fun hts => Or.inr ⟨pkt, hn, hts⟩
      simp only [hs, hp, hiff, Option.bind_eq_bind, Option.bind_some, Option.pure_def]

/-- What the ACK lets go is freed. -/
theorem Owned.removeAcked (h : Owned m others stack) :
    ∃ m', removeAcked m = some m' ∧
      Owned m' others (Trtp.removeAcked m.totalPacketsToSend stack m.lastSeqnumAcked) ∧
      ∀ st, m'.view st = m.view st := by
  unfold Mem.removeAcked Trtp.removeAcked
  rw [acceptsAck_view h]
  simp only [Option.bind_eq_bind, Option.bind_some, Option.pure_def, decide_eq_true_eq]
  by_cases hacc : Trtp.acceptsAck m.totalPacketsToSend stack m.lastSeqnumAcked
  · obtain ⟨slots, packets, hremove, howns, hpoints⟩ :=
      stackRemoveAcked_points h.owns h.points m.lastSeqnumAcked
    rw [if_pos hacc, if_pos hacc]
    simp only [hremove, Option.bind_some]
    exact ⟨_, rfl, ⟨howns, hpoints⟩, fun _ => rfl⟩
  · rw [if_neg hacc, if_neg hacc]
    exact ⟨m, rfl, h, fun _ => rfl⟩

/-- The ACK branch. -/
theorem Owned.processAck {packet : Pkt} (h : Owned m others stack)
    (hp : m.packets p = some packet) :
    ∃ m' stack' code, processAck m p = some (m', code) ∧ Owned m' others stack' ∧
      Trtp.processAck (m.view stack) packet = (m'.view stack', code) := by
  have hcount := countAck_view m packet
  obtain ⟨hpackets, hstack⟩ := countAck_same m packet
  obtain ⟨m', hremove, howned, hview⟩ := (h.congr hpackets hstack).removeAcked
  have htotal : m'.totalPacketsToSend = (countAck m packet).totalPacketsToSend :=
    congrArg Trtp.Sender.totalPacketsToSend (hview stack)
  have hlast : m'.lastSeqnumAcked = (countAck m packet).lastSeqnumAcked :=
    congrArg Trtp.Sender.lastSeqnumAcked (hview stack)
  generalize hrest : Trtp.removeAcked (countAck m packet).totalPacketsToSend stack
    (countAck m packet).lastSeqnumAcked = rest at howned
  have hvalue : Trtp.processAck (m.view stack) packet =
      if isTotal m'.totalPacketsToSend m'.lastSeqnumAcked ∧ m'.sendingStack.length = 1 then
        (m'.view rest, 1)
      else (m'.view rest, 0) := by
    unfold Trtp.processAck
    rw [← hcount, hview, howned.points.length_eq, htotal, hlast, ← hrest]
    rfl
  unfold Mem.processAck
  rw [hvalue]
  simp only [hp, hremove, Option.bind_eq_bind, Option.bind_some, Option.pure_def]
  by_cases hend : isTotal m'.totalPacketsToSend m'.lastSeqnumAcked ∧ m'.sendingStack.length = 1
  · rw [if_pos hend, if_pos hend]
    exact ⟨m', rest, 1, rfl, howned, rfl⟩
  · rw [if_neg hend, if_neg hend]
    exact ⟨m', rest, 0, rfl, howned, rfl⟩

/-- The NACK branch. -/
theorem Owned.processNack {packet : Pkt} (h : Owned m others stack)
    (hp : m.packets p = some packet) :
    ∃ m' code, processNack m p = some (m', code) ∧ Owned m' others stack ∧
      Trtp.processNack (m.view stack) packet = (m'.view stack, code) := by
  have howned : Owned { m with
      receiverWindowSize := pktGetWindow packet
      seqnumToSend := packet.seqnum
      hasNACKed := true } others stack := h.congr rfl rfl
  have hlen := h.points.length_eq
  unfold Mem.processNack Trtp.processNack
  simp only [hp, Option.bind_eq_bind, Option.bind_some, Option.pure_def]
  by_cases hend : isTotal m.totalPacketsToSend packet.seqnum ∧ stack.length = 1
  · rw [hlen, if_pos hend]
    exact ⟨_, 1, rfl, howned, if_pos hend⟩
  · rw [hlen, if_neg hend]
    exact ⟨_, 0, rfl, howned, if_neg hend⟩

/-- A reply that was decoded, by its type. -/
theorem Owned.processReply {packet : Pkt} (h : Owned m others stack)
    (hp : m.packets p = some packet) :
    ∃ m' stack' code, processReply m p = some (m', code) ∧ Owned m' others stack' ∧
      (if packet.type = .ack then Trtp.processAck (m.view stack) packet
        else if packet.type = .nack then Trtp.processNack (m.view stack) packet
        else (m.view stack, -1)) = (m'.view stack', code) := by
  unfold Mem.processReply
  simp only [hp, Option.bind_eq_bind, Option.bind_some, Option.pure_def]
  by_cases hack : packet.type = .ack
  · rw [if_pos hack, if_pos hack]
    exact h.processAck hp
  · rw [if_neg hack, if_neg hack]
    by_cases hnack : packet.type = .nack
    · rw [if_pos hnack, if_pos hnack]
      obtain ⟨m', code, hres⟩ := h.processNack hp
      exact ⟨m', stack, code, hres⟩
    · rw [if_neg hnack, if_neg hnack]
      exact ⟨m, stack, -1, rfl, h, rfl⟩

section Loop

variable [Zlib]

/-- **What is sent is written into the packet of the stack**, through its pointer. -/
theorem Owned.sendNext {pkt : Pkt} (h : Owned m others stack)
    (hget : stackGetPkt m.sendingStack m.seqnumToSend = some p)
    (hpkt : Trtp.stackGetPkt stack m.seqnumToSend = some pkt) (now : UInt32) :
    ∃ m' stack' segment, sendNext now m p = some (m', segment) ∧ Owned m' others stack' ∧
      Trtp.sendNext now (m.view stack) pkt = (m'.view stack', segment) := by
  rcases stackGetPkt_points h.points m.seqnumToSend with
    ⟨hs, -⟩ | ⟨p', pkt', hs, hn, -, hp, hset⟩
  · rw [hs] at hget
    exact absurd hget (by simp)
  rw [hget, Option.some.injEq] at hs
  rw [hpkt, Option.some.injEq] at hn
  subst hs hn
  generalize he : pktEncode (stampPkt now pkt) m.buf (16 + maxPayloadSize) = e
  have hpresent : ∀ addr, Function.update m.packets p (some e.pkt) addr = none ↔
      m.packets addr = none := by
    intro addr
    by_cases haddr : addr = p
    · rw [haddr, Function.update_self, hp]
      simp
    · rw [Function.update_of_ne haddr]
  have hwritten : Owned { m with
      totalPacketsSent := if pkt.timestamp = 0 then m.totalPacketsSent + 1 else m.totalPacketsSent
      packets := Function.update m.packets p (some e.pkt)
      buf := e.buf } others (stackSetPkt stack m.seqnumToSend e.pkt) :=
    ⟨h.owns.congr hpresent, hset h.nodup e.pkt⟩
  have hadvance : ∀ t : Sender, t.advance.packets = t.packets ∧
      t.advance.sendingStack = t.sendingStack := by
    intro t
    unfold Sender.advance
    split <;> exact ⟨rfl, rfl⟩
  refine ⟨_, _, e.segment, ?_, hwritten.congr (hadvance _).1 (hadvance _).2, ?_⟩
  · unfold Mem.sendNext
    simp only [hp, Option.bind_eq_bind, Option.bind_some, Option.pure_def, he]
  · rw [advance_view]
    unfold Trtp.sendNext
    rw [show (m.view stack).buf = m.buf from rfl, he]
    rfl

theorem Owned.transmit (h : Owned m others stack) (now : UInt32) :
    ∃ m' stack' out, transmit now m = some (m', out) ∧ Owned m' others stack' ∧
      Trtp.transmit now (m.view stack) = (m'.view stack', out) := by
  have hstay : Owned { m with pc := .wait } others stack := h.congr rfl rfl
  unfold Mem.transmit Trtp.transmit
  rw [holdsBack_view h]
  simp only [Option.bind_eq_bind, Option.bind_some, Option.pure_def, decide_eq_true_eq]
  by_cases hheld : (m.view stack).holdsBack
  · rw [if_pos hheld, if_pos hheld]
    exact ⟨_, stack, none, rfl, hstay, rfl⟩
  rw [if_neg hheld, if_neg hheld]
  by_cases hrange : ¬ isInRange m.lastSeqnumAcked m.seqnumToSend
  · rw [if_pos hrange]
    exact ⟨_, stack, none, rfl, hstay, if_pos hrange⟩
  have hrange' : ¬ ¬ isInRange (m.view stack).lastSeqnumAcked (m.view stack).seqnumToSend := hrange
  rw [if_neg hrange, if_neg hrange']
  by_cases hwin : m.receiverWindowSize = 0 ∧ m.flagged = false
  · rw [if_pos hwin]
    exact ⟨_, stack, none, rfl, hstay, if_pos hwin⟩
  have hwin' : ¬ ((m.view stack).receiverWindowSize = 0 ∧ (m.view stack).flagged = false) := hwin
  rw [if_neg hwin, if_neg hwin']
  rcases stackGetPkt_points h.points m.seqnumToSend with ⟨hs, hn⟩ | ⟨p, pkt, hs, hn, -, -, -⟩
  · have hn' : Trtp.stackGetPkt (m.view stack).sendingStack (m.view stack).seqnumToSend = none := hn
    rw [hs, hn']
    exact ⟨_, stack, none, rfl, hstay, rfl⟩
  · have hn' : Trtp.stackGetPkt (m.view stack).sendingStack (m.view stack).seqnumToSend =
        some pkt := hn
    obtain ⟨m', stack', segment, hsend, howned, hvalue⟩ := h.sendNext hs hn now
    have hwait : Owned { m' with pc := .wait } others stack' := howned.congr rfl rfl
    rw [hs, hn']
    simp only [hsend, hvalue, Option.bind_some]
    exact ⟨_, stack', some segment, rfl, hwait, rfl⟩

/-- **A reply is freed in every branch**, and nothing else but what it acknowledges. -/
theorem Owned.processResponse (h : Owned m others stack) (hnew : m.packets p = none)
    (datagram : Option (List UInt8)) (junk : Buffer) :
    ∃ m' stack' code, processResponse m datagram junk p = some (m', code) ∧
      Owned m' others stack' ∧
      Trtp.processResponse (m.view stack) datagram junk = (m'.view stack', code) := by
  cases datagram with
  | none =>
    unfold Mem.processResponse
    by_cases htotal : m.totalPacketsToSend = m.totalPacketsSent
    · exact ⟨m, stack, -3, if_pos htotal, h, if_pos htotal⟩
    · exact ⟨m, stack, -2, if_neg htotal, h, if_neg htotal⟩
  | some datagram =>
    unfold Mem.processResponse Trtp.processResponse
    simp only
    by_cases hread : 0 < min 12 datagram.length
    · rw [if_pos hread, if_pos hread]
      cases hdec : pktDecode (readInto junk 12 datagram) (min 12 datagram.length) pktNew with
      | mk status packet =>
        have halloc := h.alloc hnew packet
        have hhere : Function.update m.packets p (some packet) p = some packet :=
          Function.update_self p _ _
        cases status with
        | pktOk =>
          obtain ⟨m1, stack', code, hbranch, howned, hvalue⟩ := halloc.processReply hhere
          obtain ⟨packets, hdel, hfreed⟩ := howned.del
          simp only [hbranch, hdel, Option.bind_eq_bind, Option.bind_some, Option.pure_def]
          exact ⟨_, stack', code, rfl, hfreed, hvalue⟩
        | _ =>
          obtain ⟨packets, hdel, hfreed⟩ := halloc.del
          simp only [hdel, Option.bind_eq_bind, Option.bind_some, Option.pure_def]
          exact ⟨_, stack, -1, rfl, hfreed, rfl⟩
    · rw [if_neg hread, if_neg hread]
      exact ⟨m, stack, 0, rfl, h, rfl⟩

theorem Owned.respond (h : Owned m others stack) (hnew : m.packets p = none)
    (datagram : Option (List UInt8)) (junk : Buffer) :
    ∃ m' stack', respond m datagram junk p = some m' ∧ Owned m' others stack' ∧
      m'.view stack' = Trtp.respond (m.view stack) datagram junk := by
  obtain ⟨m1, stack', code, hres, howned, hvalue⟩ := h.processResponse hnew datagram junk
  have hend := fun mainBreak => howned.endIteration mainBreak
  have hfail : Owned { m1 with pc := .failure } others stack' := howned.congr rfl rfl
  unfold Mem.respond Trtp.respond
  simp only [hres, hvalue, Option.bind_eq_bind, Option.bind_some, Option.pure_def]
  by_cases h1 : code = 1
  · rw [if_pos h1, if_pos h1]
    exact ⟨_, stack', rfl, (hend true).1, (hend true).2⟩
  by_cases h2 : code = -2
  · rw [if_neg h1, if_neg h1, if_pos h2, if_pos h2]
    exact ⟨_, stack', rfl, hfail, rfl⟩
  by_cases h3 : code = -3
  · rw [if_neg h1, if_neg h1, if_neg h2, if_neg h2, if_pos h3, if_pos h3]
    exact ⟨_, stack', rfl, (hend true).1, (hend true).2⟩
  · rw [if_neg h1, if_neg h1, if_neg h2, if_neg h2, if_neg h3, if_neg h3]
    exact ⟨_, stack', rfl, (hend false).1, (hend false).2⟩

end Loop

/-- A further call of `read_write_loop_sender`. -/
theorem Owned.enter (h : Owned m others stack) (buf : List UInt8) :
    Owned (m.enter buf) others stack ∧ (m.enter buf).view stack = (m.view stack).enter buf := by
  have hsame : (m.enter buf).packets = m.packets ∧
      (m.enter buf).sendingStack = m.sendingStack := by
    unfold Sender.enter loopHead
    split <;> exact ⟨rfl, rfl⟩
  refine ⟨h.congr hsame.1 hsame.2, ?_⟩
  have hlen := h.points.length_eq
  have hcall : Owned { m with
      totalPacketsToSend := Int.bmod m.sendingStack.length (2 ^ 32)
      totalPacketsSent := 0
      receiverWindowSize := 1
      lastEncodedSeqnum := 0
      seqnumToSend := 0
      lastSeqnumAcked := 0
      lastSeqnumAckedCounter := 0
      buf := buf } others stack := h.congr rfl rfl
  refine (loopHead_view hcall.points.length_eq false).trans ?_
  unfold Trtp.Sender.enter
  simp only [Sender.view, hlen]

end Trtp.Mem
