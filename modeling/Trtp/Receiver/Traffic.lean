import Mathlib.Order.Interval.Finset.Nat
import Trtp.Receiver.Loop

/-!
# The receiver under arbitrary traffic (`read_write_loop_receiver.c:78-214`)

Runs of the loop over any datagrams, honest or hostile.

* `WindowInv least r`: the numbers in the stack are distinct, `least` to 30 after the expected one,
  and the window is what the stack leaves of 31.
* `window_kept`: **the window invariant holds at the head of every turn**, with `least` 1, as long
  as no truncated packet is accepted, and the replies carry the state at the end of their turn.
* `accept_eq_self_iff`: an accepted packet leaves the state alone exactly when its number is neither
  the expected one nor one of the window that is not stored (`Ignored`). Its type is not looked at.
* `fed_by_data`: **only DATA packets feed the file exactly when all others are ignored**;
  `ack_written`: an ACK that is not.
-/

namespace Trtp

open Trtp.Run

/-! ## The window -/

/-- The stack holds distinct numbers at distances `least` to 30. -/
structure WindowInv (least : ℕ) (r : Receiver) : Prop where
  nodup : (r.receivingStack.map Node.seqnum).Nodup
  near : ∀ node ∈ r.receivingStack, least ≤ offset r.expectedSeqnum node.seqnum ∧
    offset r.expectedSeqnum node.seqnum ≤ 30
  window_eq : r.window = windowLeft r.receivingStack

variable {r : Receiver}

theorem windowInv_start : WindowInv 1 Receiver.start :=
  ⟨List.nodup_nil, fun node hn => absurd hn (by simp [Receiver.start]), by decide⟩

/-- Thirty distances, thirty packets. -/
theorem WindowInv.length_le (h : WindowInv 1 r) : r.receivingStack.length ≤ 30 := by
  have hnodup : ((r.receivingStack.map Node.seqnum).map (offset r.expectedSeqnum)).Nodup :=
    h.nodup.map fun _ _ => offset_inj
  have hsub : ((r.receivingStack.map Node.seqnum).map (offset r.expectedSeqnum)).toFinset ⊆
      Finset.Icc 1 30 := by
    intro d hd
    rw [List.mem_toFinset, List.map_map, List.mem_map] at hd
    obtain ⟨node, hn, rfl⟩ := hd
    exact Finset.mem_Icc.mpr (h.near node hn)
  have hcard := Finset.card_le_card hsub
  rwa [List.toFinset_card_of_nodup hnodup, Nat.card_Icc, List.length_map, List.length_map] at hcard

theorem WindowInv.toNat_window (h : WindowInv 1 r) :
    r.window.toNat = 31 - r.receivingStack.length := by
  have hle := h.length_le
  rw [h.window_eq, toNat_windowLeft (by omega)]

/-- A packet in order moves every distance down by one. -/
theorem WindowInv.deliver (h : WindowInv 1 r) (packet : Pkt) : WindowInv 0 (r.deliver packet) := by
  refine ⟨h.nodup, fun node hn => ?_, h.window_eq⟩
  obtain ⟨hlo, hhi⟩ := h.near node hn
  have hne : node.seqnum ≠ r.expectedSeqnum := fun hc => by
    rw [hc, offset_self] at hlo
    omega
  have hoff : offset (r.deliver packet).expectedSeqnum node.seqnum =
      offset r.expectedSeqnum node.seqnum - 1 := offset_incrementSeqnum hne
  omega

/-- So does a round of the drain loop, after the only packet at distance 0 went. -/
theorem WindowInv.drained (h : WindowInv 0 r) {packet : Pkt} {rest : Stack}
    (hrem : stackRemove r.receivingStack r.expectedSeqnum = (some packet, rest)) :
    WindowInv 0 (r.drained packet rest) := by
  rcases stackRemove_cases r.receivingStack r.expectedSeqnum with
    ⟨-, hnone⟩ | ⟨front, node, back, hsplit, -, hnode, hsome⟩
  · rw [hnone] at hrem
    exact absurd (congrArg Prod.fst hrem) (by simp)
  · obtain rfl : front ++ back = rest := congrArg Prod.snd (hsome.symm.trans hrem)
    have hnodup := h.nodup
    rw [hsplit, List.map_append, List.map_cons, List.nodup_middle, List.nodup_cons, hnode,
      ← List.map_append] at hnodup
    refine ⟨hnodup.2, fun n hn => ?_, rfl⟩
    have hmem : n ∈ r.receivingStack := by
      rw [hsplit]
      rcases List.mem_append.mp hn with hn | hn
      · exact List.mem_append_left _ hn
      · exact List.mem_append_right front (List.mem_cons_of_mem node hn)
    have hne : n.seqnum ≠ r.expectedSeqnum := fun hc =>
      hnodup.1 (hc ▸ List.mem_map_of_mem hn)
    have hhi := (h.near n hmem).2
    have hoff : offset (r.drained packet (front ++ back)).expectedSeqnum n.seqnum =
        offset r.expectedSeqnum n.seqnum - 1 := offset_incrementSeqnum hne
    omega

theorem WindowInv.drain (h : WindowInv 0 r) (ts : UInt32) :
    WindowInv 1 (drain r.receivingStack.length r ts).1 := by
  have hend : WindowInv 0 (Trtp.drain r.receivingStack.length r ts).1 :=
    drain_inv (fun _ _ _ hr hrem => hr.drained hrem) h
  refine ⟨hend.nodup, fun node hn => ⟨?_, (hend.near node hn).2⟩, hend.window_eq⟩
  by_contra hlt
  exact drain_absent r ts node hn (offset_eq_zero.mp (by omega))

/-- A packet is stored at a distance no other packet has. -/
theorem WindowInv.store (h : WindowInv 1 r) {packet : Pkt}
    (hne : packet.seqnum ≠ r.expectedSeqnum) (hwin : isExpected r.expectedSeqnum packet.seqnum)
    (hin : isInStack r.receivingStack packet.seqnum ≠ true) : WindowInv 1 (r.store packet) := by
  obtain ⟨front, back, hsplit, hput⟩ := stackEnqueue_split r.receivingStack packet
  have hput' : (r.store packet).receivingStack = front ++ ⟨packet, packet.seqnum⟩ :: back := hput
  refine ⟨?_, fun node hn => ?_, rfl⟩
  · rw [hput', List.map_append, List.map_cons, List.nodup_middle, List.nodup_cons,
      ← List.map_append, ← hsplit]
    refine ⟨fun hm => hin ?_, h.nodup⟩
    obtain ⟨node, hn, hseq⟩ := List.mem_map.mp hm
    exact isInStack_iff.mpr ⟨node, hn, hseq⟩
  · rw [hput', List.mem_append, List.mem_cons] at hn
    have hold : ∀ n, n ∈ front ∨ n ∈ back → n ∈ r.receivingStack := fun n hn => by
      rw [hsplit]
      exact List.mem_append.mpr hn
    rcases hn with hn | rfl | hn
    · exact h.near node (hold node (Or.inl hn))
    · have hlt : offset r.expectedSeqnum packet.seqnum < 31 := (inWindow_iff _ _).mp hwin
      have hpos : offset r.expectedSeqnum packet.seqnum ≠ 0 := mt offset_eq_zero.mp hne
      exact ⟨Nat.one_le_iff_ne_zero.mpr hpos, Nat.lt_succ_iff.mp hlt⟩
    · exact h.near node (hold node (Or.inr hn))

section Turn

variable [Zlib] {packet : Pkt} {ts : UInt32}

theorem accept_closed (r : Receiver) (packet : Pkt) (ts : UInt32) :
    (accept r packet ts).1.closed = r.closed := by
  by_cases heq : packet.seqnum = r.expectedSeqnum
  · rw [accept_inOrder heq]
    exact drain_inv (P := fun r' => r'.closed = r.closed) (fun _ _ _ hr _ => hr) rfl
  · by_cases hwin : isExpected r.expectedSeqnum packet.seqnum
    · by_cases hin : isInStack r.receivingStack packet.seqnum = true
      · rw [accept_duplicate heq hwin hin]
      · rw [accept_stored heq hwin hin]
        rfl
    · rw [accept_outOfSequence heq hwin]

/-- **An accepted packet keeps the window**, and is answered with the state it leaves. -/
theorem WindowInv.accept (h : WindowInv 1 r) (packet : Pkt) (ts : UInt32) :
    WindowInv 1 (accept r packet ts).1 ∧
      ∀ reply ∈ (accept r packet ts).2, ∃ ts', reply = ackOf (accept r packet ts).1 ts' := by
  by_cases heq : packet.seqnum = r.expectedSeqnum
  · rw [accept_inOrder heq]
    exact ⟨(h.deliver packet).drain ts, fun reply hm => ⟨_, List.mem_singleton.mp hm⟩⟩
  · by_cases hwin : isExpected r.expectedSeqnum packet.seqnum
    · by_cases hin : isInStack r.receivingStack packet.seqnum = true
      · rw [accept_duplicate heq hwin hin]
        exact ⟨h, fun reply hm => absurd hm (by simp)⟩
      · rw [accept_stored heq hwin hin]
        exact ⟨h.store heq hwin hin, fun reply hm => ⟨ts, List.mem_singleton.mp hm⟩⟩
    · rw [accept_outOfSequence heq hwin]
      exact ⟨h, fun reply hm => ⟨ts, List.mem_singleton.mp hm⟩⟩

/-- A reply with the window and the expected number of a state. -/
def ReplyOf (r : Receiver) (reply : List UInt8) : Prop :=
  ∃ type ts, type ≠ .unset ∧ reply = wire (replyPkt r.window type ts r.expectedSeqnum)

/-- **A turn keeps the window**, unless it leaves the loop. -/
theorem WindowInv.receive (h : WindowInv 1 r) (dangling : Pkt) {datagram : List UInt8}
    (htr : ∀ packet, Accepted datagram packet → packet.tr = 0) :
    WindowInv 1 (receive dangling r datagram).1 ∧
        (receive dangling r datagram).1.closed = r.closed ∧
        (∀ reply ∈ (receive dangling r datagram).2,
          ReplyOf (receive dangling r datagram).1 reply) ∨
      (receive dangling r datagram).1.closed = true ∧
        ∀ reply ∈ (receive dangling r datagram).2, ∃ ts,
          reply = wire (replyPkt r.window .ack ts (incrementSeqnum r.expectedSeqnum)) := by
  rcases accepted_or_rejected datagram with ⟨packet, hacc⟩ | hrej
  · by_cases hc : Closing r packet
    · rw [receive_closing hacc hc]
      exact Or.inr ⟨rfl, fun reply hm => ⟨_, List.eq_of_mem_replicate hm⟩⟩
    · rw [receive_accepted hacc (htr packet hacc) hc]
      obtain ⟨hkeep, hreplies⟩ := h.accept packet packet.timestamp
      refine Or.inl ⟨hkeep, accept_closed r packet _, fun reply hm => ?_⟩
      obtain ⟨ts, hreply⟩ := hreplies reply hm
      exact ⟨.ack, ts, by simp, hreply⟩
  · obtain ⟨ts, hrec⟩ := receive_of_rejected hrej dangling r
    rw [hrec]
    exact Or.inl ⟨h, rfl, fun reply hm => ⟨.nack, ts, by simp, List.mem_singleton.mp hm⟩⟩

/-- What a sender reads in any reply of the step: while the loop goes on, the window and the
expected number of the state behind the step; in every ACK a window from 1 to 31. -/
structure RepliesCarry (s : Session) (_ : Incoming) (s' : Session) : Prop where
  carried : s'.receiver.closed = false → ∀ reply ∈ s'.sent.drop s.sent.length, ∀ junk : Buffer,
    ∃ packet, replyOf junk reply = (.pktOk, packet) ∧
      pktGetWindow packet = s'.receiver.window ∧ packet.seqnum = s'.receiver.expectedSeqnum
  acks : ∀ reply ∈ s'.sent.drop s.sent.length, ∀ (junk : Buffer) (packet : Pkt),
    replyOf junk reply = (.pktOk, packet) → packet.type = .ack →
      1 ≤ (pktGetWindow packet).toNat ∧ (pktGetWindow packet).toNat ≤ 31

/-- A reply with a legal window is read as it was meant. -/
theorem replyOf_window (junk : Buffer) {type : PType} {window : UInt8} (ts : UInt32)
    (seqnum : UInt8) (htype : type ≠ .unset) (hwin : window.toNat ≤ 31) :
    ∃ packet, replyOf junk (wire (replyPkt window type ts seqnum)) = (.pktOk, packet) ∧
      pktGetWindow packet = window ∧ packet.seqnum = seqnum := by
  obtain ⟨packet, hdec, -, hseq, hw⟩ := replyOf_wire junk type window ts seqnum htype
  exact ⟨packet, hdec, hw.trans (replyPkt_window type ts seqnum hwin), hseq⟩

/-- The step: the invariant while the loop goes on, and the replies. -/
theorem turn_window {s s' : Session} {i : Incoming}
    (h : s.receiver.closed = false → WindowInv 1 s.receiver)
    (htr : ∀ packet, Accepted i.datagram packet → packet.tr = 0) (hs : s.turn i = some s') :
    (s'.receiver.closed = false → WindowInv 1 s'.receiver) ∧ RepliesCarry s i s' := by
  obtain ⟨hopen, hreceiver, hsent⟩ := turn_some hs
  have hwindow := h hopen
  have hlen := hwindow.length_le
  have hnew : s'.sent.drop s.sent.length =
      (receive i.dangling s.receiver i.datagram).2 := by rw [hsent, List.drop_left]
  have hacks : ∀ (junk : Buffer) (window : UInt8) (type : PType) (ts : UInt32)
      (seqnum : UInt8) (packet : Pkt), type ≠ .unset → 1 ≤ window.toNat → window.toNat ≤ 31 →
      replyOf junk (wire (replyPkt window type ts seqnum)) = (.pktOk, packet) →
        1 ≤ (pktGetWindow packet).toNat ∧ (pktGetWindow packet).toNat ≤ 31 := by
    intro junk window type ts seqnum packet htype hlo hhi hdec
    obtain ⟨packet', hdec', hw, -⟩ := replyOf_window junk ts seqnum htype hhi
    obtain rfl : packet' = packet := congrArg Prod.snd (hdec'.symm.trans hdec)
    exact hw ▸ ⟨hlo, hhi⟩
  rcases hwindow.receive i.dangling htr with ⟨hkeep, -, hreplies⟩ | ⟨hclosed, hreplies⟩
  · rw [← hreceiver] at hkeep hreplies
    have hlen' := hkeep.length_le
    have hw := hkeep.toNat_window
    refine ⟨fun _ => hkeep, ⟨fun _ reply hm junk => ?_, fun reply hm junk packet hdec _ => ?_⟩⟩
    · rw [hnew] at hm
      obtain ⟨type, ts, htype, rfl⟩ := hreplies reply hm
      exact replyOf_window junk ts _ htype (by omega)
    · rw [hnew] at hm
      obtain ⟨type, ts, htype, rfl⟩ := hreplies reply hm
      exact hacks junk _ type ts _ packet htype (by omega) (by omega) hdec
  · rw [← hreceiver] at hclosed
    have hw := hwindow.toNat_window
    refine ⟨fun hc => absurd hc (by simp [hclosed]), ⟨fun hc => absurd hc (by simp [hclosed]),
      fun reply hm junk packet hdec _ => ?_⟩⟩
    rw [hnew] at hm
    obtain ⟨ts, rfl⟩ := hreplies reply hm
    exact hacks junk _ .ack ts _ packet (by simp) (by omega) (by omega) hdec

/-- What the window invariant says of a state. -/
structure WindowOk (r : Receiver) : Prop where
  distinct : (r.receivingStack.map Node.seqnum).Nodup
  near : ∀ node ∈ r.receivingStack, 1 ≤ offset r.expectedSeqnum node.seqnum ∧
    offset r.expectedSeqnum node.seqnum ≤ 30
  length_le : r.receivingStack.length ≤ 30
  window_eq : r.window.toNat = 31 - r.receivingStack.length

/-- **The window under arbitrary traffic.** In every run over any datagrams of which no accepted
one is truncated: at the head of every turn the state is `WindowOk`, and every step's replies
carry what `RepliesCarry` says. -/
theorem window_kept {is : List Incoming}
    (htr : ∀ i ∈ is, ∀ packet, Accepted i.datagram packet → packet.tr = 0) :
    (∀ s, exec Session.turn Session.start is = some s → s.receiver.closed = false →
      WindowOk s.receiver) ∧ Along Session.turn RepliesCarry Session.start is := by
  have hstart : Session.start.receiver.closed = false → WindowInv 1 Session.start.receiver :=
    fun _ => windowInv_start
  have hcond : Along Session.turn (fun _ i _ => ∀ packet, Accepted i.datagram packet →
      packet.tr = 0) Session.start is := Along.of_forall htr
  have hstep : ∀ (s : Session) (i : Incoming) (s' : Session),
      (s.receiver.closed = false → WindowInv 1 s.receiver) →
      (∀ packet, Accepted i.datagram packet → packet.tr = 0) → s.turn i = some s' →
      (s'.receiver.closed = false → WindowInv 1 s'.receiver) ∧ RepliesCarry s i s' :=
    fun _ _ _ h hc hs => turn_window h hc hs
  refine ⟨fun s hs hopen => ?_, ?_⟩
  · have hinv := exec_inv (fun s i s' h hc hs => (hstep s i s' h hc hs).1) hstart hcond hs hopen
    exact ⟨hinv.nodup, hinv.near, hinv.length_le, hinv.toNat_window⟩
  · exact Along.of_inv (fun s i s' h hc hs => (hstep s i s' h hc hs).1)
      (fun s i s' h hc hs => (hstep s i s' h hc hs).2) hstart hcond

end Turn

/-- An ACK with a byte of payload and the number expected at the start. -/
def ackWithPayload : Pkt :=
  { pktNew with type := .ack, length := 1, payload := some [120] }

/-- Packets 2 and 31 are stored, the ACK is taken for packet 0, and packet 2 drained behind
packet 1. Between them come a copy of packet 2, a packet outside the window and no packet at all. -/
def mixed [Zlib] : List Incoming :=
  [incoming (numberedPacket 2), incoming (numberedPacket 2), incoming (numberedPacket 40),
    incoming ackWithPayload, ⟨[1, 2, 3], pktNew⟩, incoming (numberedPacket 31),
    incoming (numberedPacket 1)]

open Zlib.Standard in
/-- One packet is left in the stack, 28 behind the expected one. -/
theorem window_kept_mixed :
    ∃ s, exec Session.turn Session.start mixed = some s ∧
      (s.receiver.expectedSeqnum, s.receiver.receivingStack.map Node.seqnum, s.receiver.window) =
        (3, [31], 30) ∧
      WindowOk s.receiver ∧ Along Session.turn RepliesCarry Session.start mixed := by
  have hread : (exec Session.turn Session.start mixed).map (fun s => (s.receiver.closed,
      s.receiver.expectedSeqnum, s.receiver.receivingStack.map Node.seqnum, s.receiver.window)) =
        some (false, 3, [31], 30) := by
    decide +kernel
  have htr : ∀ i ∈ mixed, ∀ packet, Accepted i.datagram packet → packet.tr = 0 := by
    decide +kernel
  obtain ⟨s, hs, hend⟩ := Option.map_eq_some_iff.mp hread
  obtain ⟨hopen, hstate⟩ := Prod.ext_iff.mp hend
  obtain ⟨hok, hreplies⟩ := window_kept htr
  exact ⟨s, hs, hstate, hok s hs hopen, hreplies⟩

/-! ## What is written -/

/-- The loop has no use for the packet: it is not the expected one, and outside the window or
stored already. -/
def Ignored (r : Receiver) (packet : Pkt) : Prop :=
  packet.seqnum ≠ r.expectedSeqnum ∧
    (isExpected r.expectedSeqnum packet.seqnum → isInStack r.receivingStack packet.seqnum = true)

instance (r : Receiver) (packet : Pkt) : Decidable (Ignored r packet) :=
  inferInstanceAs (Decidable (_ ∧ (_ → _)))

theorem length_output_deliver_lt (r : Receiver) (packet : Pkt) (fuel : ℕ) (ts : UInt32) :
    r.output.length < (drain fuel (r.deliver packet) ts).1.output.length := by
  apply drain_inv (P := fun r' => r.output.length < r'.output.length)
  · intro r' packet' rest hlt _
    have hout : (r'.drained packet' rest).output = r'.output ++ [written packet'] := rfl
    rw [hout, List.length_append, List.length_singleton]
    omega
  · have hout : (r.deliver packet).output = r.output ++ [written packet] := rfl
    rw [hout, List.length_append, List.length_singleton]
    omega

/-- Every packet in the stack or written is one of `D`. -/
structure Fed (D : Pkt → Prop) (r : Receiver) : Prop where
  stored : ∀ node ∈ r.receivingStack, D node.pkt
  delivered : ∃ packets : List Pkt, (∀ packet ∈ packets, D packet) ∧
    r.output = packets.map written

variable {D : Pkt → Prop} {packet : Pkt}

theorem Fed.append (h : Fed D r) (hp : D packet) :
    ∃ packets : List Pkt, (∀ packet ∈ packets, D packet) ∧
      r.output ++ [written packet] = packets.map written := by
  obtain ⟨packets, hall, hout⟩ := h.delivered
  refine ⟨packets ++ [packet], fun p hm => ?_, by rw [hout, List.map_append, List.map_singleton]⟩
  rcases List.mem_append.mp hm with hm | hm
  · exact hall p hm
  · exact List.mem_singleton.mp hm ▸ hp

theorem Fed.drained (h : Fed D r) {rest : Stack}
    (hrem : stackRemove r.receivingStack r.expectedSeqnum = (some packet, rest)) :
    Fed D (r.drained packet rest) := by
  rcases stackRemove_cases r.receivingStack r.expectedSeqnum with
    ⟨-, hnone⟩ | ⟨front, node, back, hsplit, -, -, hsome⟩
  · rw [hnone] at hrem
    exact absurd (congrArg Prod.fst hrem) (by simp)
  · obtain rfl : front ++ back = rest := congrArg Prod.snd (hsome.symm.trans hrem)
    obtain rfl : node.pkt = packet :=
      Option.some.inj (congrArg Prod.fst (hsome.symm.trans hrem))
    have hstored := h.stored
    rw [hsplit] at hstored
    refine ⟨fun n hn => hstored n ?_, h.append (hstored node (by simp))⟩
    rcases List.mem_append.mp hn with hn | hn
    · exact List.mem_append_left _ hn
    · exact List.mem_append_right front (List.mem_cons_of_mem node hn)

section Fed

variable [Zlib] {ts : UInt32}

/-- **A packet leaves the state alone exactly when it is ignored.** -/
theorem accept_eq_self_iff : (accept r packet ts).1 = r ↔ Ignored r packet := by
  by_cases heq : packet.seqnum = r.expectedSeqnum
  · refine iff_of_false (fun hsame => ?_) fun hi => hi.1 heq
    have hlt := length_output_deliver_lt r packet r.receivingStack.length ts
    rw [accept_inOrder heq] at hsame
    rw [show (drain r.receivingStack.length (r.deliver packet) ts).1 = r from hsame] at hlt
    omega
  · by_cases hwin : isExpected r.expectedSeqnum packet.seqnum
    · by_cases hin : isInStack r.receivingStack packet.seqnum = true
      · rw [accept_duplicate heq hwin hin]
        exact iff_of_true rfl ⟨heq, fun _ => hin⟩
      · refine iff_of_false (fun hsame => ?_) fun hi => hin (hi.2 hwin)
        rw [accept_stored heq hwin hin] at hsame
        obtain ⟨front, back, hsplit, hput⟩ := stackEnqueue_split r.receivingStack packet
        have hstack : stackEnqueue r.receivingStack packet = r.receivingStack :=
          congrArg Receiver.receivingStack hsame
        have hlen := congrArg List.length (hput.symm.trans (hstack.trans hsplit))
        rw [List.length_append, List.length_append, List.length_cons] at hlen
        omega
    · rw [accept_outOfSequence heq hwin]
      exact iff_of_true rfl ⟨heq, fun hc => absurd hc hwin⟩

/-- **A packet of `D` keeps to `D`** whichever way it takes: written, stored, or written later. -/
theorem Fed.accept (h : Fed D r) (hp : D packet) : Fed D (accept r packet ts).1 := by
  by_cases heq : packet.seqnum = r.expectedSeqnum
  · rw [accept_inOrder heq]
    have hdeliver : Fed D (r.deliver packet) := ⟨h.stored, h.append hp⟩
    exact drain_inv (fun _ _ _ hr hrem => hr.drained hrem) hdeliver
  · by_cases hwin : isExpected r.expectedSeqnum packet.seqnum
    · by_cases hin : isInStack r.receivingStack packet.seqnum = true
      · rw [accept_duplicate heq hwin hin]
        exact h
      · rw [accept_stored heq hwin hin]
        obtain ⟨front, back, hsplit, hput⟩ := stackEnqueue_split r.receivingStack packet
        refine ⟨fun node hn => ?_, h.delivered⟩
        have hn' : node ∈ stackEnqueue r.receivingStack packet := hn
        have hstored := h.stored
        rw [hsplit] at hstored
        rw [hput, List.mem_append, List.mem_cons] at hn'
        rcases hn' with hn' | rfl | hn'
        · exact hstored node (List.mem_append_left back hn')
        · exact hp
        · exact hstored node (List.mem_append_right front hn')
    · rw [accept_outOfSequence heq hwin]
      exact h

/-- A turn with a datagram that is rejected, or accepted as a packet of `D`, or ignored. -/
theorem Fed.receive (h : Fed D r) {dangling : Pkt} {datagram : List UInt8}
    (hacc : ∀ packet, Accepted datagram packet → packet.tr = 0 ∧
      (D packet ∨ packet.type ≠ .data ∧ Ignored r packet)) :
    Fed D (receive dangling r datagram).1 := by
  rcases accepted_or_rejected datagram with ⟨packet, hp⟩ | hrej
  · obtain ⟨htr, hD⟩ := hacc packet hp
    by_cases hc : Closing r packet
    · rw [receive_closing hp hc]
      exact ⟨h.stored, h.delivered⟩
    · rw [receive_accepted hp htr hc]
      rcases hD with hD | ⟨-, hign⟩
      · exact h.accept hD
      · rw [accept_eq_self_iff.mpr hign]
        exact h
  · obtain ⟨ts, hrec⟩ := receive_of_rejected hrej dangling r
    rw [hrec]
    exact h

/-! ## Only DATA packets feed the file -/

/-- A step with an accepted packet of another type than DATA leaves the receiver as it is. -/
def OthersUnchanged (s : Session) (i : Incoming) (s' : Session) : Prop :=
  ∀ packet, Accepted i.datagram packet → packet.type ≠ .data → s'.receiver = s.receiver

/-- An accepted packet of another type than DATA has a number the loop has no use for. -/
def OthersIgnored (s : Session) (i : Incoming) (_ : Session) : Prop :=
  ∀ packet, Accepted i.datagram packet → packet.type ≠ .data → Ignored s.receiver packet

theorem othersUnchanged_iff {s s' : Session} {i : Incoming} (hs : s.turn i = some s') :
    OthersUnchanged s i s' ↔ OthersIgnored s i s' := by
  obtain ⟨-, hreceiver, -⟩ := turn_some hs
  refine forall_congr' fun packet => forall_congr' fun hacc => forall_congr' fun htype => ?_
  have hc : ¬ Closing s.receiver packet := fun hc => htype hc.1
  rw [hreceiver, receive_accepted hacc (hacc.spec.1 htype) hc, accept_eq_self_iff]

/-- **When only DATA packets feed the file**: in any run, the other accepted packets leave the
receiver as it is exactly when all their numbers are ignored; and if they are, and no accepted
packet is truncated, the writes are payloads of accepted DATA packets. -/
theorem fed_by_data {is : List Incoming} :
    (Along Session.turn OthersUnchanged Session.start is ↔
      Along Session.turn OthersIgnored Session.start is) ∧
    (Along Session.turn OthersIgnored Session.start is →
      (∀ i ∈ is, ∀ packet, Accepted i.datagram packet → packet.tr = 0) →
      ∀ s, exec Session.turn Session.start is = some s →
        ∃ packets : List Pkt, (∀ packet ∈ packets, packet.type = .data ∧
          ∃ i ∈ is, Accepted i.datagram packet) ∧
          s.receiver.output = packets.map Pkt.bytes) := by
  refine ⟨⟨Along.mono fun s i s' hs => (othersUnchanged_iff hs).mp,
    Along.mono fun s i s' hs => (othersUnchanged_iff hs).mpr⟩, fun hign htr s hs => ?_⟩
  have hstart : Fed (fun packet => packet.type = .data ∧ ∃ i ∈ is, Accepted i.datagram packet)
      Session.start.receiver :=
    ⟨fun node hn => absurd hn (by simp [Session.start, Receiver.start]), [], by simp, rfl⟩
  have hmem : Along Session.turn (fun _ i _ => i ∈ is) Session.start is :=
    Along.of_forall fun i hi => hi
  have hfed := exec_inv
    (I := fun s => Fed (fun packet => packet.type = .data ∧ ∃ i ∈ is, Accepted i.datagram packet)
      s.receiver) ?_ hstart (hign.and hmem) hs
  · obtain ⟨packets, hall, hout⟩ := hfed.delivered
    refine ⟨packets, hall, hout.trans (List.map_congr_left fun packet hp => ?_)⟩
    obtain ⟨-, i, hi, hacc⟩ := hall packet hp
    exact hacc.spec.2 (htr i hi packet hacc)
  · rintro s i s' hfed ⟨hothers, hi⟩ hs
    obtain ⟨-, hreceiver, -⟩ := turn_some hs
    rw [hreceiver]
    refine hfed.receive fun packet hacc => ⟨htr i hi packet hacc, ?_⟩
    by_cases htype : packet.type = .data
    · exact Or.inl ⟨htype, i, hi, hacc⟩
    · exact Or.inr ⟨htype, hothers packet hacc htype⟩

instance (s : Session) (i : Incoming) (s' : Session) : Decidable (OthersIgnored s i s') :=
  inferInstanceAs (Decidable (∀ packet, Accepted i.datagram packet → _ → _))

end Fed

/-- The ACK comes behind packet 0, twice, and packet 2 in front of packet 1. -/
def lateAck [Zlib] : List Incoming :=
  [incoming (numberedPacket 0), incoming ackWithPayload, incoming (numberedPacket 2),
    incoming ackWithPayload, incoming (numberedPacket 1)]

open Zlib.Standard in
/-- The ACK is ignored, and the payloads of the DATA packets are written. -/
theorem fed_by_data_lateAck :
    ∃ s, exec Session.turn Session.start lateAck = some s ∧
      s.receiver.output = [[0], [1], [2]] ∧
      Along Session.turn OthersUnchanged Session.start lateAck ∧
      ∃ packets : List Pkt, (∀ packet ∈ packets, packet.type = .data ∧
        ∃ i ∈ lateAck, Accepted i.datagram packet) ∧
        s.receiver.output = packets.map Pkt.bytes := by
  have hread : (exec Session.turn Session.start lateAck).map (fun s => s.receiver.output) =
      some [[0], [1], [2]] := by
    decide +kernel
  have hign : Along Session.turn OthersIgnored Session.start lateAck := by
    decide +kernel
  have htr : ∀ i ∈ lateAck, ∀ packet, Accepted i.datagram packet → packet.tr = 0 := by
    decide +kernel
  obtain ⟨s, hs, hout⟩ := Option.map_eq_some_iff.mp hread
  exact ⟨s, hs, hout, fed_by_data.1.mpr hign, fed_by_data.2 hign htr s hs⟩

open Zlib.Standard in
/-- **An ACK is written to the file** and acknowledged. -/
theorem ack_written :
    Accepted (wire ackWithPayload) (received ackWithPayload) ∧
      (∃ s, exec Session.turn Session.start [⟨wire ackWithPayload, pktNew⟩] = some s ∧
        s.receiver.output = [[120]] ∧ s.receiver.expectedSeqnum = 1) ∧
      ¬ Along Session.turn OthersUnchanged Session.start [⟨wire ackWithPayload, pktNew⟩] := by
  have hsend : Sendable ackWithPayload := ⟨by decide, by decide, by decide, by decide⟩
  obtain ⟨s, hs, hread⟩ := Option.map_eq_some_iff.mp
    (by decide +kernel : (exec Session.turn Session.start
      [⟨wire ackWithPayload, pktNew⟩]).map
        (fun s => (s.receiver.output, s.receiver.expectedSeqnum)) = some ([[120]], 1))
  rw [Prod.mk.injEq] at hread
  refine ⟨accepted_wire hsend, ⟨s, hs, hread.1, hread.2⟩, fun hall => ?_⟩
  obtain ⟨s1, hturn, hend⟩ := exec_cons_inv hs
  obtain rfl : s1 = s := Option.some.inj hend
  have hsame := (hall s1 hturn).1 _ (accepted_wire hsend) (by decide)
  rw [hsame] at hread
  exact absurd hread.2 (by decide)

end Trtp
