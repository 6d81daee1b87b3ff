import Trtp.Lib.Amortize
import Trtp.Lib.Blocks
import Trtp.Receiver.Truncation

/-!
# The received packets in memory (`read_write_loop_receiver.c:78-214`, `receiver.c:103-107`)

The receiver's loop with its packets behind pointers. A turn allocates a packet, `pkt_del` frees it,
and the nodes of `receivingStack` point to the stored ones. Every function returns an `Option`:
`none` is an access to a packet that was freed, or a second `pkt_del` of it. In
`Trtp.Receiver.Step` such an access reads the parameter `dangling`.

* `receive_backs`: **a turn that accepts no truncated packet never touches a freed one**, and does
  what `Trtp.receive` says, whatever `dangling` is; a turn that accepts one always does.
* `use_after_free_iff`: the same for whole runs, over any datagrams.
* `leaks`: **the loop leaks one packet for every ignored one**, and no other: these are left when
  `main` has freed the stack.

A packet and its payload are one block. The nodes of the stack are the subject of
`Trtp.Stack.Pointers`; `send_reply` frees what it allocates, and is taken as it is there.
-/

namespace Trtp.Mem

open Trtp.Run Trtp.Bytes Trtp.Blocks

/-- A `pkt_t *` that is not `NULL`. -/
abbrev Ptr := ℕ

/-- `struct node`. -/
structure Slot where
  pkt : Ptr
  seqnum : UInt8
  deriving Repr, DecidableEq

/-- The allocated packets. -/
abbrev Packets := Ptr → Option Pkt

/-! ## The stack of pointers -/

/-- The walk of `stack_enqueue`, as in `Trtp.enqueueBack`. -/
def enqueueBack (newNode : Slot) : List Slot → List Slot
  | [] => [newNode]
  | [first] => [newNode, first]
  | runner :: prev :: rest =>
    if goesBefore newNode.seqnum runner.seqnum then
      runner :: enqueueBack newNode (prev :: rest)
    else newNode :: runner :: prev :: rest

/-- `stack_enqueue`. -/
def stackEnqueue (stack : List Slot) (newNode : Slot) : List Slot :=
  (enqueueBack newNode stack.reverse).reverse

/-- `stack_remove`: the pointer, `none` for `NULL`, and the stack left. -/
def stackRemove : List Slot → UInt8 → Option Ptr × List Slot
  | [], _ => (none, [])
  | runner :: next, seqnum =>
    if runner.seqnum ≠ seqnum then
      ((stackRemove next seqnum).1, runner :: (stackRemove next seqnum).2)
    else (some runner.pkt, next)

/-- `is_in_stack`. -/
def isInStack (stack : List Slot) (seqnum : UInt8) : Bool :=
  stack.any fun node => node.seqnum = seqnum

/-- `(uint8_t) (MAX_WINDOW_SIZE - stack_size(receivingStack))`. -/
def windowLeft (stack : List Slot) : UInt8 := UInt8.ofNat maxWindowSize - UInt8.ofNat stack.length

/-- The slot of a node. -/
def Points (packets : Packets) (slot : Slot) (node : Node) : Prop :=
  packets slot.pkt = some node.pkt ∧ slot.seqnum = node.seqnum

variable {packets : Packets} {slots : List Slot} {stack : Stack}

theorem enqueueBack_points {slot : Slot} {node : Node}
    (h : List.Forall₂ (Points packets) slots stack) (hnew : Points packets slot node) :
    List.Forall₂ (Points packets) (enqueueBack slot slots) (Trtp.enqueueBack node stack) := by
  induction h with
  | nil => exact List.Forall₂.cons hnew List.Forall₂.nil
  | cons hrunner hrest ih =>
    cases hrest with
    | nil => exact List.Forall₂.cons hnew (List.Forall₂.cons hrunner List.Forall₂.nil)
    | cons hprev hrest =>
      rw [enqueueBack, Trtp.enqueueBack, hnew.2, hrunner.2]
      split
      · exact List.Forall₂.cons hrunner ih
      · exact List.Forall₂.cons hnew (List.Forall₂.cons hrunner (List.Forall₂.cons hprev hrest))

theorem stackEnqueue_points (slot : Slot) {pkt : Pkt}
    (h : List.Forall₂ (Points packets) slots stack) (hnew : Points packets slot ⟨pkt, pkt.seqnum⟩) :
    List.Forall₂ (Points packets) (stackEnqueue slots slot) (Trtp.stackEnqueue stack pkt) :=
  List.forall₂_reverse_iff.mpr (enqueueBack_points (List.forall₂_reverse_iff.mpr h) hnew)

theorem enqueueBack_perm (slot : Slot) (slots : List Slot) :
    (enqueueBack slot slots).Perm (slot :: slots) := by
  induction slots with
  | nil => exact List.Perm.refl _
  | cons runner slots ih =>
    cases slots with
    | nil => exact List.Perm.refl _
    | cons prev rest =>
      rw [enqueueBack]
      split
      · exact (List.Perm.cons runner ih).trans (List.Perm.swap slot runner _)
      · exact List.Perm.refl _

theorem stackEnqueue_perm (slot : Slot) (slots : List Slot) :
    (stackEnqueue slots slot).Perm (slot :: slots) :=
  (List.reverse_perm _).trans ((enqueueBack_perm slot _).trans
    (List.Perm.cons slot (List.reverse_perm slots)))

/-- Nothing is taken out at both levels, or the same packet. -/
theorem stackRemove_points (h : List.Forall₂ (Points packets) slots stack) (seqnum : UInt8) :
    stackRemove slots seqnum = (none, slots) ∧ Trtp.stackRemove stack seqnum = (none, stack) ∨
      ∃ p pkt slots' stack', stackRemove slots seqnum = (some p, slots') ∧
        Trtp.stackRemove stack seqnum = (some pkt, stack') ∧ packets p = some pkt ∧
        List.Forall₂ (Points packets) slots' stack' ∧
        (slots.map Slot.pkt).Perm (p :: slots'.map Slot.pkt) := by
  induction h with
  | nil => exact Or.inl ⟨rfl, rfl⟩
  | @cons runner node slots stack hrunner hrest ih =>
    rw [stackRemove, Trtp.stackRemove, hrunner.2]
    split
    · rcases ih with ⟨hs, hn⟩ | ⟨p, pkt, slots', stack', hs, hn, hp, hrest', hperm⟩
      · rw [hs, hn]
        exact Or.inl ⟨rfl, rfl⟩
      · rw [hs, hn]
        exact Or.inr ⟨p, pkt, runner :: slots', node :: stack', rfl, rfl, hp,
          List.Forall₂.cons hrunner hrest',
          (List.Perm.cons _ hperm).trans (List.Perm.swap p runner.pkt _)⟩
    · exact Or.inr ⟨runner.pkt, node.pkt, slots, stack, rfl, rfl, hrunner.1, hrest,
        List.Perm.refl _⟩

theorem isInStack_points (h : List.Forall₂ (Points packets) slots stack) (seqnum : UInt8) :
    isInStack slots seqnum = Trtp.isInStack stack seqnum := by
  induction h with
  | nil => rfl
  | cons hrunner hrest ih =>
    unfold isInStack Trtp.isInStack at ih ⊢
    rw [List.any_cons, List.any_cons, ih, hrunner.2]

/-- Slots that do not point to an address do not mind what is written there. -/
theorem points_update {p : Ptr} (h : List.Forall₂ (Points packets) slots stack)
    (hp : p ∉ slots.map Slot.pkt) (block : Option Pkt) :
    List.Forall₂ (Points (Function.update packets p block)) slots stack := by
  induction h with
  | nil => exact List.Forall₂.nil
  | cons hrunner hrest ih =>
    rw [List.map_cons, List.mem_cons, not_or] at hp
    refine List.Forall₂.cons ⟨?_, hrunner.2⟩ (ih hp.2)
    rw [Function.update_of_ne (Ne.symm hp.1)]
    exact hrunner.1

/-! ## The loop with pointers -/

/-- The receiver's globals and its packets. -/
structure State where
  packets : Packets
  expectedSeqnum : UInt8
  window : UInt8
  receivingStack : List Slot
  output : List (List UInt8)
  closed : Bool

/-- The state `main` starts the loop in. -/
def State.start : State :=
  { packets := fun _ => none, expectedSeqnum := 0, window := UInt8.ofNat maxWindowSize
    receivingStack := [], output := [], closed := false }

/-- `pkt_del`. -/
def pktDel (m : State) (packet : Ptr) : Option State := do
  let packets ← free m.packets packet
  return { m with packets := packets }

/-- The drain loop. A round takes a packet out of the stack: `fuel` is the size of the stack. -/
def drain : ℕ → State → UInt32 → Option (State × UInt32)
  | 0, m, previousTimestamp => some (m, previousTimestamp)
  | fuel + 1, m, previousTimestamp =>
    match stackRemove m.receivingStack m.expectedSeqnum with
    | (none, _) => some (m, previousTimestamp)
    | (some p, receivingStack) => do
      let packet ← m.packets p
      let m ← pktDel { m with
        output := m.output ++ [written packet], receivingStack := receivingStack } p
      drain fuel
        { m with
          expectedSeqnum := incrementSeqnum m.expectedSeqnum
          window := windowLeft receivingStack }
        packet.timestamp

section Loop

variable [Zlib]

/-- The branches behind the NACK of a truncated packet. -/
def accept (m : State) (p : Ptr) (previousTimestamp : UInt32) :
    Option (State × List (List UInt8)) := do
  let packet ← m.packets p
  if packet.seqnum = m.expectedSeqnum then
    let m ← pktDel { m with output := m.output ++ [written packet] } p
    let m := { m with expectedSeqnum := incrementSeqnum m.expectedSeqnum }
    let (m, previousTimestamp) ← drain m.receivingStack.length m previousTimestamp
    return (m, sendReply m.window .ack previousTimestamp m.expectedSeqnum)
  else if isExpected m.expectedSeqnum packet.seqnum then
    if isInStack m.receivingStack packet.seqnum then return (m, [])
    else
      let m := { m with
        receivingStack := stackEnqueue m.receivingStack ⟨p, packet.seqnum⟩
        window := windowLeft (stackEnqueue m.receivingStack ⟨p, packet.seqnum⟩) }
      return (m, sendReply m.window .ack previousTimestamp m.expectedSeqnum)
  else return (m, sendReply m.window .ack previousTimestamp m.expectedSeqnum)

/-- One turn of `read_write_loop_receiver`; `pkt_new` returns `p`. -/
def receive (m : State) (p : Ptr) (datagram : List UInt8) :
    Option (State × List (List UInt8)) :=
  let sfdBuffer := readInto cleared (maxPayloadSize + 16) datagram
  let justRead := min (maxPayloadSize + 16) datagram.length
  match pktDecode sfdBuffer justRead pktNew with
  | (.pktOk, packet) =>
    let m := { m with packets := Function.update m.packets p (some packet) }
    if packet.type = .data ∧ packet.length = 0 ∧ pktGetTr packet = 0 ∧
        packet.seqnum = m.expectedSeqnum then do
      let m := { m with expectedSeqnum := incrementSeqnum m.expectedSeqnum }
      let replies := (List.replicate 5
        (sendReply m.window .ack packet.timestamp m.expectedSeqnum)).flatten
      let m ← pktDel m p
      return ({ m with closed := true }, replies)
    else if pktGetTr packet = 1 then do
      let nack := sendReply m.window .nack packet.timestamp packet.seqnum
      let m ← pktDel m p
      -- no `continue`
      let (m, replies) ← accept m p packet.timestamp
      return (m, nack ++ replies)
    else accept m p packet.timestamp
  | (_, packet) => do
    let m := { m with packets := Function.update m.packets p (some packet) }
    let nack := sendReply m.window .nack packet.timestamp m.expectedSeqnum
    let m ← pktDel m p
    return (m, nack)

end Loop

/-! ## What backs a receiver -/

/-- The memory of a receiver: the packets of its stack are where the slots say, and allocated are
these and some others. -/
structure Backs (m : State) (others : List Ptr) (r : Receiver) : Prop where
  owns : Owns m.packets (m.receivingStack.map Slot.pkt ++ others)
  points : List.Forall₂ (Points m.packets) m.receivingStack r.receivingStack
  expected_eq : m.expectedSeqnum = r.expectedSeqnum
  window_eq : m.window = r.window
  output_eq : m.output = r.output
  closed_eq : m.closed = r.closed

variable {m m' : State} {others : List Ptr} {r : Receiver} {p : Ptr} {packet : Pkt}

theorem backs_start : Backs State.start [] Receiver.start :=
  ⟨owns_empty, List.Forall₂.nil, rfl, rfl, rfl, rfl⟩

theorem windowLeft_eq (h : List.Forall₂ (Points packets) slots stack) :
    windowLeft slots = Trtp.windowLeft stack := by
  rw [windowLeft, Trtp.windowLeft, h.length_eq]

/-- `pkt_new`, and what `pkt_decode` makes of it. -/
theorem Backs.alloc (h : Backs m others r) (hnew : m.packets p = none) (packet : Pkt) :
    Backs { m with packets := Function.update m.packets p (some packet) } (p :: others) r where
  owns := (h.owns.alloc hnew packet).perm List.perm_middle.symm
  points := points_update h.points
    (fun hm => h.owns.notMem hnew (List.mem_append_left _ hm)) (some packet)
  expected_eq := h.expected_eq
  window_eq := h.window_eq
  output_eq := h.output_eq
  closed_eq := h.closed_eq

/-- `pkt_del` of a packet that is not in the stack. -/
theorem Backs.del (h : Backs m (p :: others) r) :
    Backs { m with packets := Function.update m.packets p none } others r := by
  have howns : Owns m.packets (p :: (m.receivingStack.map Slot.pkt ++ others)) :=
    h.owns.perm List.perm_middle
  exact ⟨howns.free, points_update h.points
    (fun hm => (List.nodup_cons.mp howns.nodup).1 (List.mem_append_left _ hm)) none,
    h.expected_eq, h.window_eq, h.output_eq, h.closed_eq⟩

/-- **The drain loop only touches packets of the stack**, and frees those it takes out. -/
theorem drain_backs (fuel : ℕ) (ts : UInt32) (h : Backs m others r) :
    ∃ m', drain fuel m ts = some (m', (Trtp.drain fuel r ts).2) ∧
      Backs m' others (Trtp.drain fuel r ts).1 := by
  induction fuel generalizing m r ts with
  | zero => exact ⟨m, rfl, h⟩
  | succ fuel ih =>
    rcases stackRemove_points h.points m.expectedSeqnum with
      ⟨hs, hn⟩ | ⟨p, pkt, slots', stack', hs, hn, hp, hpoints, hperm⟩
    · rw [h.expected_eq] at hn
      rw [drain, Trtp.drain, hs, hn]
      exact ⟨m, rfl, h⟩
    · have howns : Owns m.packets (p :: (slots'.map Slot.pkt ++ others)) :=
        h.owns.perm (hperm.append_right others)
      have hnotMem := (List.nodup_cons.mp howns.nodup).1
      rw [h.expected_eq] at hn
      have hnext : Backs { m with
          packets := Function.update m.packets p none
          expectedSeqnum := incrementSeqnum m.expectedSeqnum
          window := windowLeft slots'
          receivingStack := slots'
          output := m.output ++ [written pkt] } others (r.drained pkt stack') :=
        ⟨howns.free, points_update hpoints (fun hm => hnotMem (List.mem_append_left _ hm)) none,
          congrArg incrementSeqnum h.expected_eq, windowLeft_eq hpoints,
          congrArg (· ++ [written pkt]) h.output_eq, h.closed_eq⟩
      obtain ⟨m', hdrain, hbacks⟩ := ih pkt.timestamp hnext
      refine ⟨m', ?_, ?_⟩
      · rw [drain, Trtp.drain, hs, hn]
        simp only [hp, pktDel, free_eq hp, Option.bind_eq_bind, Option.bind_some]
        exact hdrain
      · rw [Trtp.drain, hn]
        exact hbacks

/-! ## Turns -/

section Turn

variable [Zlib]

/-- The ACK that is sent is that of the receiver. -/
theorem Backs.ack_eq (h : Backs m others r) (ts : UInt32) :
    sendReply m.window .ack ts m.expectedSeqnum = [ackOf r ts] := by
  rw [sendReply_eq _ _ _ (by simp), h.window_eq, h.expected_eq]
  rfl

/-- **An accepted packet is freed, stored or leaked**, and leaked exactly when it is ignored. -/
theorem accept_backs (ts : UInt32) (h : Backs m (p :: others) r)
    (hp : m.packets p = some packet) :
    ∃ m', accept m p ts = some (m', (Trtp.accept r packet ts).2) ∧
      Backs m' (if Ignored r packet then p :: others else others) (Trtp.accept r packet ts).1 := by
  by_cases heq : packet.seqnum = r.expectedSeqnum
  · -- written and freed, then the drain loop
    rw [if_neg fun hign => hign.1 heq]
    have hfreed : Backs { m with
        packets := Function.update m.packets p none
        output := m.output ++ [written packet]
        expectedSeqnum := incrementSeqnum m.expectedSeqnum } others (r.deliver packet) := by
      have hdel := h.del
      exact ⟨hdel.owns, hdel.points, congrArg incrementSeqnum h.expected_eq, h.window_eq,
        congrArg (· ++ [written packet]) h.output_eq, h.closed_eq⟩
    obtain ⟨m', hdrain, hbacks⟩ := drain_backs r.receivingStack.length ts hfreed
    refine ⟨m', ?_, ?_⟩
    · simp only [accept, hp, Option.bind_eq_bind, Option.bind_some]
      rw [if_pos (heq.trans h.expected_eq.symm)]
      simp only [pktDel, free_eq hp, Option.bind_eq_bind, Option.bind_some, Option.pure_def]
      rw [h.points.length_eq, hdrain]
      rw [accept_inOrder heq, Option.bind_some, hbacks.ack_eq]
    · rw [accept_inOrder heq]
      exact hbacks
  have hne : packet.seqnum ≠ m.expectedSeqnum := h.expected_eq ▸ heq
  by_cases hwin : isExpected r.expectedSeqnum packet.seqnum
  · have hwin' : isExpected m.expectedSeqnum packet.seqnum := h.expected_eq ▸ hwin
    by_cases hin : Trtp.isInStack r.receivingStack packet.seqnum = true
    · -- a duplicate stays allocated
      rw [if_pos ⟨heq, fun _ => hin⟩, accept_duplicate heq hwin hin]
      refine ⟨m, ?_, h⟩
      simp only [accept, hp, Option.bind_eq_bind, Option.bind_some]
      rw [if_neg hne, if_pos hwin', isInStack_points h.points, if_pos hin]
      rfl
    · -- the stack has it now
      rw [if_neg fun hign => hin (hign.2 hwin), accept_stored heq hwin hin]
      have hstored : Backs { m with
          receivingStack := stackEnqueue m.receivingStack ⟨p, packet.seqnum⟩
          window := windowLeft (stackEnqueue m.receivingStack ⟨p, packet.seqnum⟩) } others
          (r.store packet) := by
        have hpoints := stackEnqueue_points ⟨p, packet.seqnum⟩ h.points ⟨hp, rfl⟩
        have hperm := (stackEnqueue_perm ⟨p, packet.seqnum⟩ m.receivingStack).map Slot.pkt
        exact ⟨h.owns.perm (List.perm_middle.trans (hperm.symm.append_right others)), hpoints,
          h.expected_eq, windowLeft_eq hpoints, h.output_eq, h.closed_eq⟩
      refine ⟨_, ?_, hstored⟩
      simp only [accept, hp, Option.bind_eq_bind, Option.bind_some]
      rw [if_neg hne, if_pos hwin', isInStack_points h.points, if_neg hin]
      exact congrArg (fun replies => some (_, replies)) (hstored.ack_eq ts)
  · -- out of sequence, and never freed
    have hwin' : ¬ isExpected m.expectedSeqnum packet.seqnum := h.expected_eq ▸ hwin
    rw [if_pos ⟨heq, fun hc => absurd hc hwin⟩, accept_outOfSequence heq hwin]
    refine ⟨m, ?_, h⟩
    simp only [accept, hp, Option.bind_eq_bind, Option.bind_some]
    rw [if_neg hne, if_neg hwin', h.ack_eq]
    rfl

variable {datagram : List UInt8}

/-- The datagram is accepted, and the loop has no use for its packet. -/
def Leaks (r : Receiver) (datagram : List UInt8) : Prop :=
  (pktDecode (readInto cleared 528 datagram) (min 528 datagram.length) pktNew).1 = .pktOk ∧
    Ignored r (pktDecode (readInto cleared 528 datagram) (min 528 datagram.length) pktNew).2

instance (r : Receiver) (datagram : List UInt8) : Decidable (Leaks r datagram) :=
  inferInstanceAs (Decidable (_ ∧ _))

theorem leaks_iff (h : Accepted datagram packet) : Leaks r datagram ↔ Ignored r packet := by
  unfold Accepted at h
  rw [Leaks, h]
  exact and_iff_right rfl

/-- **A turn without a truncated packet** only touches what is allocated, and is the turn of the
receiver. -/
theorem receive_backs (h : Backs m others r) (hnew : m.packets p = none)
    (htr : ∀ packet, Accepted datagram packet → packet.tr = 0) (dangling : Pkt) :
    ∃ m', receive m p datagram = some (m', (Trtp.receive dangling r datagram).2) ∧
      Backs m' (if Leaks r datagram then p :: others else others)
        (Trtp.receive dangling r datagram).1 := by
  rcases accepted_or_rejected datagram with ⟨packet, hacc⟩ | hrej
  · have hzero := htr packet hacc
    have hget : pktGetTr packet = 0 := by rw [pktGetTr, hzero]; rfl
    have hhere : Function.update m.packets p (some packet) p = some packet :=
      Function.update_self p _ _
    have halloc := h.alloc hnew packet
    have hdec := hacc
    unfold Accepted at hdec
    by_cases hc : Closing r packet
    · rw [if_neg fun hl => ((leaks_iff hacc).mp hl).1 hc.2.2.2, receive_closing hacc hc]
      have hc' : packet.type = .data ∧ packet.length = 0 ∧ pktGetTr packet = 0 ∧
          packet.seqnum = m.expectedSeqnum := by rw [h.expected_eq]; exact hc
      have hdel := halloc.del
      refine ⟨{ m with
        packets := Function.update (Function.update m.packets p (some packet)) p none
        expectedSeqnum := incrementSeqnum m.expectedSeqnum
        closed := true }, ?_, hdel.owns, hdel.points, congrArg incrementSeqnum h.expected_eq,
        h.window_eq, h.output_eq, rfl⟩
      simp only [receive, maxPayloadSize, hdec]
      rw [if_pos hc', sendReply_eq _ _ _ (by simp)]
      simp only [pktDel, free_eq hhere, Option.bind_eq_bind, Option.bind_some, Option.pure_def]
      rw [h.window_eq, h.expected_eq]
      rfl
    · rw [receive_accepted hacc hzero hc]
      have hc' : ¬ (packet.type = .data ∧ packet.length = 0 ∧ pktGetTr packet = 0 ∧
          packet.seqnum = m.expectedSeqnum) := by rw [h.expected_eq]; exact hc
      obtain ⟨m', haccept, hbacks⟩ := accept_backs packet.timestamp halloc hhere
      refine ⟨m', ?_, ?_⟩
      · simp only [receive, maxPayloadSize, hdec]
        rw [if_neg hc', if_neg (by rw [hget]; decide)]
        exact haccept
      · simp only [leaks_iff hacc]
        exact hbacks
  · have hnot : ¬ Leaks r datagram := fun hl => hrej hl.1
    rw [if_neg hnot]
    cases hdec : pktDecode (readInto cleared 528 datagram) (min 528 datagram.length) pktNew with
    | mk status packet =>
      rw [hdec] at hrej
      have hhere : Function.update m.packets p (some packet) p = some packet :=
        Function.update_self p _ _
      refine ⟨{ m with
        packets := Function.update (Function.update m.packets p (some packet)) p none }, ?_, ?_⟩
      · simp only [receive, Trtp.receive, maxPayloadSize, hdec, pktDel, free_eq hhere,
          Option.bind_eq_bind, Option.bind_some, Option.pure_def, h.window_eq, h.expected_eq]
      · have hsame : (Trtp.receive dangling r datagram).1 = r := by
          simp only [Trtp.receive, maxPayloadSize, hdec]
        rw [hsame]
        exact (h.alloc hnew packet).del

/-- **A truncated packet that is accepted is used after it was freed.** -/
theorem receive_truncated (hacc : Accepted datagram packet) (htr : packet.tr = 1) (m : State)
    (p : Ptr) : receive m p datagram = none := by
  have hget : pktGetTr packet = 1 := by rw [pktGetTr, htr]; rfl
  have hdec := hacc
  unfold Accepted at hdec
  simp only [receive, maxPayloadSize, hdec]
  rw [if_neg (by rw [hget]; simp), if_pos hget]
  simp only [pktDel, free, accept, Function.update_self, Option.bind_eq_bind, Option.bind_some,
    Option.pure_def, Option.bind_none]

end Turn

/-! ## Runs -/

/-- A datagram to be read, and where `pkt_new` puts its packet. -/
structure Arrival extends Incoming where
  packet : Ptr

/-- `stack_free`: the first packet is taken out and freed until there is none. -/
def stackFree : List Slot → Packets → Option Packets
  | [], packets => some packets
  | first :: rest, packets => do stackFree rest (← free packets first.pkt)

theorem stackFree_owns {others : List Ptr} (h : Owns packets (slots.map Slot.pkt ++ others)) :
    ∃ packets', stackFree slots packets = some packets' ∧ Owns packets' others := by
  induction slots generalizing packets with
  | nil => exact ⟨packets, rfl, h⟩
  | cons first rest ih =>
    rw [List.map_cons, List.cons_append] at h
    obtain ⟨packet, hpacket⟩ := h.exists_block List.mem_cons_self
    obtain ⟨packets', hfree, howns⟩ := ih h.free
    refine ⟨packets', ?_, howns⟩
    rw [stackFree, free_eq hpacket]
    exact hfree

section Runs

variable [Zlib]

/-- One turn; none after the `break` or an error. `pkt_new` returns memory that is not allocated. -/
def turn : Option State → Arrival → Option (Option State)
  | none, _ => none
  | some m, i =>
    if m.closed = false ∧ m.packets i.packet = none then
      some ((receive m i.packet i.datagram).map Prod.fst)
    else none

/-- The datagram is accepted with TR 1. -/
def Truncated (i : Arrival) : Prop := ∃ packet, Accepted i.datagram packet ∧ packet.tr = 1

/-- One for each packet that is ignored. -/
def ignored (s : Session) (i : Incoming) : ℕ := if Leaks s.receiver i.datagram then 1 else 0

/-- **A run** ends with the first truncated packet, or it is a run of the receiver. -/
theorem turns_backs {others : List Ptr} {es : List Arrival} {m : State} {s : Option State}
    {session : Session} (h : Backs m others session.receiver)
    (hexec : exec turn (some m) es = some s) :
    (s = none ∧ ∃ i ∈ es, Truncated i) ∨
      ∃ m' session' others', s = some m' ∧ (∀ i ∈ es, ¬ Truncated i) ∧
        exec Session.turn session (es.map Arrival.toIncoming) = some session' ∧
        Backs m' others' session'.receiver ∧ others'.length = others.length +
          total Session.turn ignored session (es.map Arrival.toIncoming) := by
  induction es generalizing m others session with
  | nil =>
    rw [exec, Option.some.injEq] at hexec
    exact Or.inr ⟨m, session, others, hexec.symm, by simp, rfl, h, rfl⟩
  | cons i es ih =>
    obtain ⟨s1, hturn, hexec'⟩ := exec_cons_inv hexec
    rw [turn] at hturn
    split at hturn
    · rename_i hpossible
      rw [Option.some.injEq] at hturn
      by_cases htrunc : Truncated i
      · -- nothing follows the access to the freed packet
        obtain ⟨packet, hacc, htr⟩ := htrunc
        rw [receive_truncated hacc htr, Option.map_none] at hturn
        subst hturn
        cases es with
        | nil =>
          rw [exec, Option.some.injEq] at hexec'
          exact Or.inl ⟨hexec'.symm, i, List.mem_cons_self, packet, hacc, htr⟩
        | cons j es =>
          obtain ⟨s2, hturn2, -⟩ := exec_cons_inv hexec'
          exact absurd hturn2 (by simp [turn])
      · have hzero : ∀ packet, Accepted i.datagram packet → packet.tr = 0 := by
          intro packet hacc
          have hne : packet.tr ≠ 1 := fun htr => htrunc ⟨packet, hacc, htr⟩
          omega
        obtain ⟨m1, hrecv, hbacks⟩ := receive_backs h hpossible.2 hzero i.dangling
        rw [hrecv, Option.map_some] at hturn
        subst hturn
        have hopen : session.receiver.closed = false := h.closed_eq ▸ hpossible.1
        obtain ⟨next, hstep, hnext⟩ : ∃ next, session.turn i.toIncoming = some next ∧
            Backs m1 (if Leaks session.receiver i.datagram then i.packet :: others else others)
              next.receiver :=
          ⟨_, if_neg (by simp [hopen]), hbacks⟩
        rcases ih hnext hexec' with ⟨hnone, j, hj, htr⟩ |
          ⟨m', session', others', hs, hall, hrun, hbacks', hlen⟩
        · exact Or.inl ⟨hnone, j, List.mem_cons_of_mem i hj, htr⟩
        · refine Or.inr ⟨m', session', others', hs, fun j hj => ?_, ?_, hbacks', ?_⟩
          · rcases List.mem_cons.mp hj with rfl | hj
            · exact htrunc
            · exact hall j hj
          · rw [List.map_cons, exec, hstep]
            exact hrun
          · rw [List.map_cons, total_cons hstep, hlen, ignored]
            split
            · rw [List.length_cons]
              omega
            · omega
    · exact absurd hturn (by simp)

/-- **The loop goes on with a freed packet exactly when it accepts a truncated one**, over any
datagrams and wherever the packets are allocated. Without one, it is the receiver's loop. -/
theorem use_after_free_iff {es : List Arrival} {s : Option State}
    (h : exec turn (some State.start) es = some s) :
    (s = none ↔ ∃ i ∈ es, Truncated i) ∧ ∀ m ∈ s, ∃ session others,
      exec Session.turn Session.start (es.map Arrival.toIncoming) = some session ∧
        Backs m others session.receiver := by
  have hstart : Backs State.start [] Session.start.receiver := backs_start
  rcases turns_backs hstart h with ⟨hnone, hex⟩ | ⟨m', session, others, hs, hall, hrun, hbacks, -⟩
  · refine ⟨iff_of_true hnone hex, fun m hm => ?_⟩
    rw [hnone] at hm
    exact absurd hm (by simp)
  · refine ⟨iff_of_false (by simp [hs]) fun ⟨i, hi, htr⟩ => hall i hi htr, fun m hm => ?_⟩
    rw [hs, Option.mem_some_iff] at hm
    subst hm
    exact ⟨session, others, hrun, hbacks⟩

end Runs

set_option maxRecDepth 8000 in
open Zlib.Standard in
/-- A packet that is truncated. -/
theorem use_after_free_truncated :
    ∃ s, exec turn (some State.start) [⟨⟨truncatedFrame, pktNew⟩, 0⟩] = some s ∧
      (s = none ↔ ∃ i ∈ [(⟨⟨truncatedFrame, pktNew⟩, 0⟩ : Arrival)], Truncated i) := by
  obtain ⟨s, hs⟩ := Option.isSome_iff_exists.mp (by decide +kernel :
    (exec turn (some State.start) [⟨⟨truncatedFrame, pktNew⟩, 0⟩]).isSome)
  exact ⟨s, hs, (use_after_free_iff hs).1⟩

section Leaks

variable [Zlib]

/-- **What is leaked**: behind `stack_free`, as many packets are still allocated as were ignored. -/
theorem leaks {es : List Arrival} {m : State}
    (h : exec turn (some State.start) es = some (some m)) :
    ∃ packets leaked, stackFree m.receivingStack m.packets = some packets ∧ Owns packets leaked ∧
      leaked.length = total Session.turn ignored Session.start (es.map Arrival.toIncoming) := by
  have hstart : Backs State.start [] Session.start.receiver := backs_start
  rcases turns_backs hstart h with ⟨hnone, -⟩ | ⟨m', session, others, hs, -, -, hbacks, hlen⟩
  · exact absurd hnone (by simp)
  · rw [Option.some.injEq] at hs
    subst hs
    obtain ⟨packets, hfree, howns⟩ := stackFree_owns hbacks.owns
    refine ⟨packets, others, hfree, howns, ?_⟩
    rw [hlen, List.length_nil, Nat.zero_add]

end Leaks

/-- A packet out of sequence, twice. -/
def outOfSequence [Zlib] : List Arrival :=
  [⟨⟨(pktEncode testPacket cleared.1 528).segment, pktNew⟩, 0⟩,
    ⟨⟨(pktEncode testPacket cleared.1 528).segment, pktNew⟩, 1⟩]

set_option maxRecDepth 8000 in
open Zlib.Standard in
theorem leaks_twice :
    ∃ m packets leaked, exec turn (some State.start) outOfSequence = some (some m) ∧
      stackFree m.receivingStack m.packets = some packets ∧ Owns packets leaked ∧
      leaked.length =
        total Session.turn ignored Session.start (outOfSequence.map Arrival.toIncoming) := by
  obtain ⟨m, hm⟩ := Option.isSome_iff_exists.mp (by decide +kernel :
    ((exec turn (some State.start) outOfSequence).bind id).isSome)
  obtain ⟨s, hs, rfl⟩ := Option.bind_eq_some_iff.mp hm
  obtain ⟨packets, leaked, hfree, howns, hlen⟩ := leaks hs
  exact ⟨m, packets, leaked, hs, hfree, howns, hlen⟩

set_option maxRecDepth 8000 in
open Zlib.Standard in
example : total Session.turn ignored Session.start (outOfSequence.map Arrival.toIncoming) = 2 := by
  decide +kernel

end Trtp.Mem
