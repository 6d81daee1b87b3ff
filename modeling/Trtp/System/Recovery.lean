import Trtp.Lib.Reach
import Trtp.System.Progress

/-!
# Every transfer can still be completed (`read_write_loop_sender.c:87-315`)

`Progress` says that the sender has something to wait for. Here: that it can still come.

* `Fifo.expire`, `resend_first`: the first packet's timer is over and the packet goes out again,
  or the loop ends at the sixth expiration of the last packet.
* `answer_first`: an open receiver answers the first packet with an ACK of what it has, which is
  behind that packet.
* `ends_last`, `shrinks`: the last packet ends the loop; any other can be acknowledged. Where the
  ACK carries the number of a packet that was never sent, a NACK has that packet sent before.
* `no_dead_end`: **from every state of a run that keeps to the condition of `not_stuck`, whatever
  was lost, repeated or damaged, a further run in order ends the sender's loop with the whole file
  written**.
* `dead_end`: **where the first packet was never sent, cannot be sent and nothing is in flight, no
  run gets away**.
-/

namespace Trtp

open Trtp.Run Trtp.Reassembly

variable {chunks : List Chunk} {S : Finset ℕ} {s s' : Sys}

/-! ## Timers -/

/-- A clock by which all timers are over. -/
def late : ℕ → ℤ := fun _ => 2 ^ 33

/-- The timer of the first packet is over. -/
def Overdue (clock : ℕ → ℤ) (stack : Stack) : Prop :=
  ∃ first ∈ stack.head?, RTlength < clock 0 - first.pkt.timestamp.toNat

theorem overdue_late {stack : Stack} (h : stack ≠ []) : Overdue late stack := by
  obtain ⟨node, rest, rfl⟩ := List.exists_cons_of_ne_nil h
  refine ⟨node, rfl, ?_⟩
  have hlt := node.pkt.timestamp.toNat_lt
  unfold late RTlength
  omega

theorem findExpired_overdue {clock : ℕ → ℤ} {stack : Stack} (hsent : SentAt stack 0)
    (h : Overdue clock stack) :
    ∃ first, stack[0]? = some first ∧ findExpired clock 0 stack = some first := by
  obtain ⟨first, hfirst, hover⟩ := h
  obtain ⟨node, hnode, hts⟩ := hsent
  rw [← List.head?_eq_getElem?, hfirst, Option.mem_some_iff] at hnode
  subst hnode
  cases stack with
  | nil => exact absurd hfirst (by simp)
  | cons node rest =>
    rw [List.head?_cons, Option.mem_some_iff] at hfirst
    subst hfirst
    exact ⟨node, rfl, by rw [findExpired, if_pos hts, if_pos hover]⟩

/-- A retransmission of the first packet is about to go out. -/
structure Due (s : Sys) : Prop where
  top : s.sender.pc = .top
  names : s.sender.seqnumToSend = UInt8.ofNat s.acked
  flagged : s.sender.flagged = true

section Recovery

variable [Zlib]

/-- The steps of the runs in which the sender is never stuck. -/
def Steady (s : Sys) (e : Event) (_ : Sys) : Prop := e.InOrder ∧ AckFollows s e

theorem progress_reaches (hp : Progress chunks S s) (h : Reaches step Steady s s') :
    ∃ S', Progress chunks S' s' := by
  refine h.keeps (I := fun s => ∃ S, Progress chunks S s) ?_ ⟨S, hp⟩
  rintro s e s' ⟨S, hp⟩ ⟨he, hok⟩ hs
  exact progress_step hp he hok hs

/-! ## The network -/

/-- Everything in flight may be lost. -/
theorem lose_all (s : Sys) : Reaches step Steady s { s with data := [], replies := [] } := by
  have hdata : ∀ data, Reaches step Steady { s with data := data } { s with data := [] } := by
    intro data
    induction data with
    | nil => exact Reaches.refl _
    | cons frame rest ih => exact Reaches.head (e := .loseData 0) rfl ⟨trivial, trivial⟩ ih
  have hreplies : ∀ replies, Reaches step Steady { s with data := [], replies := replies }
      { s with data := [], replies := [] } := by
    intro replies
    induction replies with
    | nil => exact Reaches.refl _
    | cons frame rest ih => exact Reaches.head (e := .loseReply 0) rfl ⟨trivial, trivial⟩ ih
  exact (hdata s.data).trans (hreplies s.replies)

/-- A frame may be repeated twice. -/
theorem triple {frame : ℕ × List UInt8} (h : s.data = [frame]) :
    Reaches step Steady s { s with data := [frame, frame, frame] } := by
  have h1 : step s (.dupData 0) = some { s with data := [frame, frame] } := by
    rw [step, h]
    rfl
  exact Reaches.head h1 ⟨trivial, trivial⟩ (Reaches.single (e := .dupData 0) rfl
    ⟨trivial, trivial⟩)

/-! ## The first packet -/

/-- **The first timer that is over** has the first packet sent next, or ends the loop. -/
theorem Fifo.expire {clock : ℕ → ℤ} (h : Fifo chunks S s)
    (hsent : SentAt s.sender.sendingStack 0) (hover : Overdue clock s.sender.sendingStack)
    (hs : step s (.idle clock) = some s') :
    s'.acked = s.acked ∧ (s'.sender.pc = .success ∨ Due s' ∧
      (s.sender.sendingStack.length = 1 →
        s'.sender.lastpacketsSentCount = s.sender.lastpacketsSentCount + 1 ∧
          s'.sender.lastpacketsSentCount ≤ 5)) := by
  obtain ⟨-, heq⟩ := step_idle hs
  obtain ⟨first, hfirst, hfound⟩ := findExpired_overdue hsent hover
  have hw : wakeUp clock s.sender = endIteration (s.sender.expire first) false := by
    simp only [wakeUp, checkForRT, hfound, if_true]
  rw [hw] at heq
  have hacked : s'.acked = s.acked := by
    refine acked_congr (by rw [heq]) ?_
    rw [heq]
    simp [Sender.expire]
  refine ⟨hacked, ?_⟩
  rcases endIteration_pc (s.sender.expire first) false with ⟨htop, -⟩ | ⟨hdone, -⟩
  · have hle := endIteration_top htop
    have hnumber := h.base.base.holds.numbered.getElem? hfirst
    obtain ⟨pc, hpc⟩ := endIteration_eq (s.sender.expire first) false
    have hsender : s'.sender = { s.sender.expire first with pc := .top } := by
      rw [heq, ← htop, hpc]
    refine Or.inr ⟨⟨by rw [hsender], ?_, by rw [hsender]; rfl⟩, fun hone => ?_⟩
    · rw [hsender, hacked]
      exact hnumber.trans (by rw [Nat.add_zero])
    · have hexpire : (s.sender.expire first).lastpacketsSentCount =
          s.sender.lastpacketsSentCount + 1 := if_pos hone
      rw [hsender]
      exact ⟨hexpire, hle⟩
  · exact Or.inl (by rw [heq, hdone])

@[simp] theorem transmit_lastpacketsSentCount (now : UInt32) (t : Sender) :
    (Trtp.transmit now t).1.lastpacketsSentCount = t.lastpacketsSentCount := by
  rcases transmit_cases now t with hnone | ⟨pkt, -, -, hsome⟩
  · rw [hnone]
  · rw [hsome]
    exact sendNext_lastpacketsSentCount now t pkt

/-- What is due is sent. -/
theorem Fifo.due_sends (h : Fifo chunks S s) (hdue : Due s) (now : UInt32) :
    ∃ datagram, (Trtp.transmit now s.sender).2 = some datagram ∧ s.toSend = s.acked := by
  have hpos := List.length_pos_iff.mpr (h.ends.busy (by rw [hdue.top]; simp))
  have hfirst := List.getElem?_eq_getElem hpos
  have hnumber := h.base.base.holds.numbered.getElem? hfirst
  rw [Nat.add_zero] at hnumber
  have hsend := h.base.base.resend hfirst (Or.inl rfl) (hdue.names.trans hnumber.symm)
    hdue.flagged now
  refine ⟨_, hsend, ?_⟩
  rw [Sys.toSend, hdue.names, offset_self, Nat.add_zero]

/-- **The first packet goes out again**, or the loop ends. -/
theorem Progress.resend_first (h : Progress chunks S s) (hwait : s.sender.pc = .wait) :
    ∃ s', Reaches step Steady s s' ∧ (s'.sender.pc = .success ∨
      ∃ datagram, Progress chunks S s' ∧ s'.sender.pc = .wait ∧ s'.acked = s.acked ∧
        s'.data = s.data ++ [(s.acked, datagram)] ∧ s'.replies = s.replies ∧
        s'.receiver = s.receiver ∧
        (s.sender.sendingStack.length = 1 →
          s'.sender.lastpacketsSentCount = s.sender.lastpacketsSentCount + 1 ∧
            s'.sender.lastpacketsSentCount ≤ 5)) := by
  have hidle : step s (.idle late) = some { s with sender := wakeUp late s.sender } := by
    rw [step, if_pos hwait]
  have hreach := Reaches.single (C := Steady) hidle ⟨trivial, trivial⟩
  have h1 := h.idle hidle
  obtain ⟨hacked1, hdone | ⟨hdue, hcount⟩⟩ :=
    h.fifo.expire (h.waiting hwait) (overdue_late (h.fifo.ends.busy (by rw [hwait]; simp))) hidle
  · exact ⟨_, hreach, Or.inl hdone⟩
  -- the retransmission
  obtain ⟨datagram, hsend, htag⟩ := h1.fifo.due_sends hdue 1
  have hstep : step { s with sender := wakeUp late s.sender } (.transmit 1) = some
      { s with
        sender := (Trtp.transmit 1 (wakeUp late s.sender)).1
        data := s.data ++ [(s.acked, datagram)] } := by
    rw [step, if_pos ⟨hdue.top, by decide⟩, hsend, htag, hacked1]
    rfl
  obtain ⟨-, hacked2⟩ := h1.fifo.inv.transmit hstep
  refine ⟨_, hreach.trans (Reaches.single hstep ⟨trivial, trivial⟩), Or.inr
    ⟨datagram, h1.transmit hstep, ?_, hacked2.trans hacked1, rfl, rfl, rfl, fun hone => ?_⟩⟩
  · rcases transmit_cases 1 (wakeUp late s.sender) with hnone | ⟨pkt, -, -, hsome⟩
    · rw [hnone]
    · rw [hsome]
  · rw [transmit_lastpacketsSentCount]
    exact hcount hone

/-! ## The receiver's answer -/

/-- While a packet with payload is first in the stack, the receiver is in its loop. -/
theorem Fifo.open_of_lt (h : Fifo chunks S s) (hlt : s.acked < chunks.length) :
    s.receiver.closed = false := by
  cases h.inv.received with
  | inLoop hrep => exact hrep.open_eq
  | left hclosed hall hexp hout hempty =>
    have hmem : chunks.length ∈ S := mem_of_lt_next (by omega)
    have := h.last (Or.inl hmem)
    omega

/-- The receiver is past the first packet once that has arrived. -/
theorem Fifo.lt_next (h : Fifo chunks S s) : s.acked < next (absorb 31 S s.acked) := by
  have hle := h.inv.acked_le
  rw [h.inv.received.delivered_eq] at hle
  have hmem := mem_absorb_self (S := S) (W := 31) (j := s.acked) (by omega)
  refine lt_of_le_of_ne (hle.trans (next_le_next_absorb S _)) fun heq => ?_
  exact next_notMem (absorb 31 S s.acked) (heq ▸ hmem)

/-- **The first packet is answered with one ACK**, whether it is expected or was delivered. -/
theorem Fifo.answer_first (h : Fifo chunks S s) (hlt : s.acked < chunks.length)
    {datagram : List UInt8} {rest : List (ℕ × List UInt8)}
    (hd : s.data = (s.acked, datagram) :: rest) (dangling : Pkt) :
    ∃ s' reply, step s (.deliver dangling) = some s' ∧
      Fifo chunks (absorb 31 S s.acked) s' ∧ s'.sender = s.sender ∧ s'.acked = s.acked ∧
      s'.data = rest ∧ s'.receiver.delivered = next (absorb 31 S s.acked) ∧
      s'.replies = s.replies ++ [(next (absorb 31 S s.acked), reply)] ∧
      IsReply .ack (next (absorb 31 S s.acked)) reply := by
  have hopen := h.open_of_lt hlt
  have hstep : step s (.deliver dangling) = some (s.turn dangling datagram rest) := by
    rw [step, hd]
    exact if_pos hopen
  obtain ⟨frame, rest', hd', hfifo, -⟩ := h.deliver hstep
  rw [hd, List.cons.injEq] at hd'
  obtain ⟨rfl, -⟩ := hd'
  obtain ⟨pkt, hdata, hwire, -, hlate, hearly⟩ := h.inv.head hd
  have hrep := h.inv.received.represents hopen
  have hgo : contents chunks s.acked ≠ [] := fun hnil => by
    have := contents_eq_nil.mp hnil
    omega
  have hrecv := receive_data (r := s.receiver) hdata (Or.inl hgo) dangling
  obtain ⟨hrep', hans⟩ :=
    accept_represents hrep hdata.received pkt.timestamp (by simp only at hlate; omega) hearly
  rw [← hrecv] at hrep' hans
  simp only at hwire
  rw [← hwire] at hrep' hans
  have hdelivered : (receive dangling s.receiver datagram).1.delivered =
      next (absorb 31 S s.acked) := (Received.inLoop hrep').delivered_eq
  -- a packet that was stored ahead would be behind the first one
  have hle := h.inv.acked_le
  rw [h.inv.received.delivered_eq] at hle
  rcases hans with ⟨-, hahead, -⟩ | ⟨ts, hone⟩
  · omega
  · refine ⟨_, _, hstep, hfifo, rfl, rfl, rfl, hdelivered, ?_,
      (receive dangling s.receiver datagram).1.window, ts, (Received.window_pos hrep').1,
      (Received.window_pos hrep').2, rfl⟩
    simp only [Sys.turn, hone, hdelivered, List.map_cons, List.map_nil, hrep'.expected_eq]

/-- **A damaged frame is answered with a NACK** for the packet that is missing. -/
theorem Progress.nack_missing (h : Progress chunks S s) (hopen : s.receiver.closed = false)
    {frame : ℕ × List UInt8} {rest : List (ℕ × List UInt8)} (hd : s.data = frame :: rest) :
    ∃ reply, step s (.damagedData pktNew [0]) = some { s with
        data := rest, replies := s.replies ++ [(s.receiver.delivered, reply)] } ∧
      IsReply .nack s.receiver.delivered reply ∧
      Progress chunks S { s with
        data := rest, replies := s.replies ++ [(s.receiver.delivered, reply)] } := by
  have hrej : Rejected cleared 528 [0] := by
    intro hok
    have hlen := le_len_of_ok (Prod.ext hok rfl :
      pktDecode (readInto cleared 528 [0]) (min 528 [(0 : UInt8)].length) pktNew = (.pktOk, _))
    exact absurd hlen (by decide)
  have hstep : step s (.damagedData pktNew [0]) = some (s.turn pktNew [0] rest) := by
    rw [step, hd]
    exact if_pos ⟨hopen, hrej⟩
  obtain ⟨frame', rest', reply, hd', -, -, hreply, heq⟩ := h.fifo.inv.damagedData hstep
  rw [hd, List.cons.injEq] at hd'
  obtain ⟨rfl, rfl⟩ := hd'
  rw [heq] at hstep
  exact ⟨reply, hstep, hreply, h.quiet (h.fifo.damagedData hstep) rfl (le_refl _)⟩

/-! ## The sender's reaction -/

/-- A NACK has its packet asked for in the next iteration, unless the loop ends. -/
theorem Progress.ask_missing (h : Progress chunks S s) (hwait : s.sender.pc = .wait) {k : ℕ}
    {reply : List UInt8} (hreplies : s.replies = [(k, reply)]) (hrep : IsReply .nack k reply) :
    ∃ s', step s (.reply 0 cleared) = some s' ∧ AckFollows s (.reply 0 cleared) ∧
      Progress chunks S s' ∧ s'.acked = s.acked ∧ s'.data = s.data ∧ s'.replies = [] ∧
      s'.receiver = s.receiver ∧
      (s'.sender.pc = .success ∨ s'.sender.pc = .top ∧ s'.sender.flagged = true ∧
        s'.sender.seqnumToSend = UInt8.ofNat k) := by
  have hstep : step s (.reply 0 cleared) = some { s with
      sender := respond s.sender (some reply) cleared, replies := [] } := by
    rw [step, hreplies]
    exact if_pos hwait
  obtain ⟨window, ts, -, h31, hwire⟩ := hrep
  obtain ⟨mainBreak, hresp⟩ := respond_nack s.sender cleared ts (UInt8.ofNat k) h31
  obtain ⟨pc, hpc⟩ := endIteration_eq { s.sender with
    receiverWindowSize := window
    seqnumToSend := UInt8.ofNat k
    hasNACKed := true } mainBreak
  have hok : AckFollows s (.reply 0 cleared) := by
    intro frame hframe htype
    rw [hreplies, List.getElem?_cons_zero, Option.mem_some_iff] at hframe
    obtain ⟨packet, hdec, hnack, -, -⟩ := replyOf_wire cleared .nack window ts
      (UInt8.ofNat k) (by decide)
    rw [← hframe, hwire, hdec, hnack] at htype
    exact absurd htype (by decide)
  have hacked : Sys.acked { s with
      sender := respond s.sender (some reply) cleared, replies := [] } = s.acked := by
    refine acked_congr rfl ?_
    rw [hwire, hresp, hpc]
  refine ⟨_, hstep, hok, h.reply hok hstep, hacked, rfl, rfl, rfl, ?_⟩
  rw [hwire, hresp]
  rcases endIteration_pc { s.sender with
    receiverWindowSize := window
    seqnumToSend := UInt8.ofNat k
    hasNACKed := true } mainBreak with ⟨htop, -⟩ | ⟨hdone, -⟩
  · refine Or.inr ⟨htop, ?_, ?_⟩
    · rw [hpc]
      simp [Sender.flagged]
    · rw [hpc]
  · exact Or.inl hdone

/-- What was asked for is sent, or stays asked for. -/
theorem Progress.send_asked (h : Progress chunks S s) (htop : s.sender.pc = .top)
    (hflag : s.sender.flagged = true) {k : ℕ} (hseq : s.sender.seqnumToSend = UInt8.ofNat k)
    (hlo : s.acked ≤ k) (hhi : k ≤ s.receiver.delivered) :
    ∃ s' more, step s (.transmit 1) = some s' ∧ Progress chunks S s' ∧ s'.sender.pc = .wait ∧
      s'.acked = s.acked ∧ s'.data = s.data ++ more ∧ s'.replies = s.replies ∧
      s'.receiver = s.receiver ∧
      (s'.sender.flagged = true ∨ SentAt s'.sender.sendingStack (k - s.acked)) := by
  have hstep : step s (.transmit 1) = some { s with
      sender := (Trtp.transmit 1 s.sender).1
      data := s.data ++ (Trtp.transmit 1 s.sender).2.toList.map fun datagram =>
        (s.toSend, datagram) } := if_pos ⟨htop, by decide⟩
  obtain ⟨-, hacked⟩ := h.fifo.inv.transmit hstep
  have hfar := h.fifo.delivered_le
  refine ⟨_, _, hstep, h.transmit hstep, ?_, hacked, rfl, rfl, rfl, ?_⟩
  · rcases transmit_cases 1 s.sender with hnone | ⟨pkt, -, -, hsome⟩
    · rw [hnone]
    · rw [hsome]
  · rcases transmit_cases 1 s.sender with hnone | ⟨pkt, -, hget, hsome⟩
    · rw [hnone]
      exact Or.inl hflag
    · obtain ⟨-, -, -, -, hsent⟩ := sendNext_sent h.fifo.inv.holds (by decide : (1 : UInt32) ≠ 0)
        hget
      rw [hsome]
      refine Or.inr ((hsent _).mpr (Or.inl ?_))
      rw [hseq, offset_ofNat_of_le hlo (by omega)]

/-- **An ACK takes the sender to its packet**, when that packet was sent or a retransmission is
asked for. -/
theorem Progress.acknowledge (h : Progress chunks S s) (hwait : s.sender.pc = .wait) {k : ℕ}
    {reply : List UInt8} (hreplies : s.replies = [(k, reply)]) (hrep : IsReply .ack k reply)
    (hlo : s.acked ≤ k)
    (hok : s.sender.flagged = true ∨ SentAt s.sender.sendingStack (k - s.acked)) :
    ∃ s', step s (.reply 0 cleared) = some s' ∧ AckFollows s (.reply 0 cleared) ∧
      Progress chunks S s' ∧ s'.acked = k := by
  have hstep : step s (.reply 0 cleared) = some { s with
      sender := respond s.sender (some reply) cleared, replies := [] } := by
    rw [step, hreplies]
    exact if_pos hwait
  have hframe : s.replies[0]? = some (k, reply) := by rw [hreplies]; rfl
  have hrep' := hrep
  obtain ⟨window, ts, -, h31, hwire⟩ := hrep
  have hfollows : AckFollows s (.reply 0 cleared) := by
    intro frame hmem _ hclear pkt hpkt hts
    rw [hframe, Option.mem_some_iff] at hmem
    obtain ⟨packet, hdec, -, hseq, -⟩ := replyOf_wire cleared .ack window ts (UInt8.ofNat k)
      (by decide)
    rcases hok with hflag | ⟨node, hnode, hne⟩
    · exact absurd (hflag.symm.trans hclear) (by simp)
    · -- the packet the ACK leads to was sent
      have hnumber := h.fifo.inv.holds.numbered.getElem? hnode
      rw [Nat.add_sub_cancel' hlo] at hnumber
      have hfar := h.fifo.delivered_le
      have hk := (h.fifo.inv.replies _ (List.mem_of_getElem? hframe)).1
      have hget := h.fifo.inv.holds.get_of_getElem? hnode (by simp only at hk; omega)
      rw [← hmem, hwire, hdec] at hpkt
      simp only [hseq, ← hnumber, hget, Option.mem_some_iff] at hpkt
      exact absurd (hpkt ▸ hts) hne
  have hnext := h.reply hfollows hstep
  refine ⟨_, hstep, hfollows, hnext, ?_⟩
  have hk := (h.fifo.inv.replies _ (List.mem_of_getElem? hframe)).1
  obtain ⟨m, hack, -⟩ := h.fifo.inv.ack hk fun hlt => absurd hlo (by simp only at hlt; omega)
  obtain ⟨t, counter, mainBreak, hresp, ht⟩ :=
    respond_ack s.sender cleared ts (UInt8.ofNat k) h31
  have hstack : (respond s.sender (some reply) cleared).sendingStack =
      s.sender.sendingStack.drop m := by
    rw [hwire, hresp, endIteration_sendingStack, ← hack.removed]
    rcases ht with rfl | ⟨-, rfl⟩ <;> rfl
  have hsum := h.fifo.length_eq
  have hsum' := hnext.fifo.length_eq
  have hle := hack.le_length
  have hkm := hack.fresh hlo
  simp only [hstack, List.length_drop] at hsum'
  simp only at hkm
  omega

/-! ## To the end -/

/-- The sender is waiting and nothing is in flight. -/
structure Silent (chunks : List Chunk) (s : Sys) : Prop where
  live : ∃ S, Progress chunks S s
  wait : s.sender.pc = .wait
  data : s.data = []
  replies : s.replies = []

/-- The sender's loop runs, so that it can be brought to wait, and everything in flight be lost. -/
theorem reaches_silent (h : Progress chunks S s) :
    ∃ s', Reaches step Steady s s' ∧
      (s'.sender.pc = .success ∨ Silent chunks s' ∧ s'.acked = s.acked) := by
  have hlose : ∀ {s1 : Sys}, Reaches step Steady s s1 → s1.sender.pc = .wait →
      s1.acked = s.acked → ∃ s', Reaches step Steady s s' ∧
        (s'.sender.pc = .success ∨ Silent chunks s' ∧ s'.acked = s.acked) := by
    intro s1 hreach hwait hacked
    have hall := hreach.trans (lose_all s1)
    exact ⟨_, hall, Or.inr ⟨⟨progress_reaches h hall, hwait, rfl, rfl⟩, hacked⟩⟩
  cases hpc : s.sender.pc with
  | top =>
    have hstep : step s (.transmit 1) = some { s with
        sender := (transmit 1 s.sender).1
        data := s.data ++ (transmit 1 s.sender).2.toList.map fun datagram =>
          (s.toSend, datagram) } := if_pos ⟨hpc, by decide⟩
    refine hlose (Reaches.single hstep ⟨trivial, trivial⟩) ?_ (h.fifo.inv.transmit hstep).2
    rcases transmit_cases 1 s.sender with hnone | ⟨pkt, -, -, hsome⟩
    · rw [hnone]
    · rw [hsome]
  | wait => exact hlose (Reaches.refl s) hpc rfl
  | success => exact ⟨s, Reaches.refl s, Or.inl hpc⟩
  | failure => exact absurd hpc h.fifo.ends.running

/-- **The last packet ends the loop**, after six expirations at most. -/
theorem ends_last (h : Silent chunks s) (hlast : s.acked = chunks.length) :
    ∃ s', Reaches step Steady s s' ∧ s'.sender.pc = .success := by
  refine exists_reaches (I := fun s => (∃ S, Progress chunks S s) ∧ s.sender.pc = .wait ∧
    s.acked = chunks.length) (fun s => 6 - s.sender.lastpacketsSentCount) ?_
    ⟨h.live, h.wait, hlast⟩
  rintro s ⟨⟨S, hp⟩, hwait, hlast⟩
  obtain ⟨s', hreach, hdone | ⟨datagram, hp', hwait', hacked, -, -, -, hcount⟩⟩ :=
    hp.resend_first hwait
  · exact ⟨s', hreach, Or.inl hdone⟩
  · have hsum := hp.fifo.length_eq
    obtain ⟨hmore, hle⟩ := hcount (by omega)
    exact ⟨s', hreach, Or.inr ⟨⟨⟨S, hp'⟩, hwait', hacked.trans hlast⟩, by omega⟩⟩

/-- Frames of the first packet are on their way to a receiver that has it. -/
structure Repeating (chunks : List Chunk) (s : Sys) (frames : List (ℕ × List UInt8)) : Prop where
  live : ∃ S, Progress chunks S s
  wait : s.sender.pc = .wait
  data : s.data = frames
  replies : s.replies = []
  lt_delivered : s.acked < s.receiver.delivered

/-- Of three copies of the first packet's frame, the first is delivered, and its ACK lost. -/
theorem reaches_repeating (h : Progress chunks S s) (hwait : s.sender.pc = .wait)
    (hlt : s.acked < chunks.length) {datagram : List UInt8}
    (hdata : s.data = [(s.acked, datagram)]) (hreplies : s.replies = []) :
    ∃ s', Reaches step Steady s s' ∧ s'.acked = s.acked ∧
      Repeating chunks s' [(s.acked, datagram), (s.acked, datagram)] := by
  have htriple := triple hdata
  obtain ⟨S1, hp1⟩ := progress_reaches h htriple
  obtain ⟨s2, reply, hstep2, -, hsender2, hacked2, hdata2, hdelivered2, hreplies2, -⟩ :=
    hp1.fifo.answer_first hlt rfl pktNew
  have hstep3 : step s2 (.loseReply 0) = some { s2 with replies := [] } := by
    rw [step, hreplies2, hreplies]
    rfl
  have hreach := (htriple.trans (Reaches.single (C := Steady) hstep2 ⟨trivial, trivial⟩)).trans
    (Reaches.single hstep3 ⟨trivial, trivial⟩)
  refine ⟨_, hreach, hacked2, progress_reaches h hreach, ?_, hdata2, rfl, ?_⟩
  · change s2.sender.pc = .wait
    rw [hsender2]
    exact hwait
  · change s2.acked < s2.receiver.delivered
    rw [hacked2, hdelivered2]
    exact hp1.fifo.lt_next

/-- The second is damaged. The NACK has the packet sent that the receiver misses, or asked for. -/
theorem Repeating.ask {frame : ℕ × List UInt8} {rest : List (ℕ × List UInt8)}
    (h : Repeating chunks s (frame :: rest)) (hlt : s.acked < chunks.length) :
    ∃ s', Reaches step Steady s s' ∧ (s'.sender.pc = .success ∨
      ∃ more, Repeating chunks s' (rest ++ more) ∧ s'.acked = s.acked ∧
        (s'.sender.flagged = true ∨
          SentAt s'.sender.sendingStack (s'.receiver.delivered - s'.acked))) := by
  obtain ⟨S, hp⟩ := h.live
  obtain ⟨reply, hstep1, hrep, hp1⟩ := hp.nack_missing (hp.fifo.open_of_lt hlt) h.data
  have hreach1 := Reaches.single (C := Steady) hstep1 ⟨trivial, trivial⟩
  obtain ⟨s2, hstep2, hok2, hp2, hacked2, hdata2, hreplies2, hreceiver2, hpc2⟩ :=
    hp1.ask_missing h.wait (by rw [h.replies]; rfl) hrep
  have hreach2 := hreach1.trans (Reaches.single (C := Steady) hstep2 ⟨rfl, hok2⟩)
  rcases hpc2 with hdone | ⟨htop, hflag, hseq⟩
  · exact ⟨s2, hreach2, Or.inl hdone⟩
  have hlt2 : s2.acked < s2.receiver.delivered := by
    rw [hacked2, hreceiver2]
    exact h.lt_delivered
  obtain ⟨s3, more, hstep3, hp3, hwait3, hacked3, hdata3, hreplies3, hreceiver3, hasked⟩ :=
    hp2.send_asked htop hflag (hseq.trans (by rw [hreceiver2])) hlt2.le (le_refl _)
  refine ⟨s3, hreach2.trans (Reaches.single hstep3 ⟨trivial, trivial⟩), Or.inr ⟨more,
    ⟨⟨S, hp3⟩, hwait3, by rw [hdata3, hdata2], hreplies3.trans hreplies2, ?_⟩,
    hacked3.trans hacked2, ?_⟩⟩
  · rw [hacked3, hreceiver3]
    exact hlt2
  · rw [hacked3, hreceiver3]
    exact hasked

/-- **Any other first packet can be acknowledged.** -/
theorem shrinks (h : Silent chunks s) (hlt : s.acked < chunks.length) :
    ∃ s', Reaches step Steady s s' ∧ (s'.sender.pc = .success ∨
      (∃ S, Progress chunks S s') ∧ s.acked < s'.acked) := by
  obtain ⟨S, hp⟩ := h.live
  obtain ⟨s1, hreach1, hdone | ⟨datagram, hp1, hwait1, hacked1, hdata1, hreplies1, -, -⟩⟩ :=
    hp.resend_first h.wait
  · exact ⟨s1, hreach1, Or.inl hdone⟩
  rw [h.data, List.nil_append, ← hacked1] at hdata1
  rw [h.replies] at hreplies1
  rw [← hacked1] at hlt
  obtain ⟨s2, hreach2, hacked2, hrep2⟩ := reaches_repeating hp1 hwait1 hlt hdata1 hreplies1
  rw [← hacked2] at hrep2 hlt
  obtain ⟨s3, hreach3, hdone | ⟨more, hrep3, hacked3, hok⟩⟩ := hrep2.ask hlt
  · exact ⟨s3, (hreach1.trans hreach2).trans hreach3, Or.inl hdone⟩
  -- the third brings the ACK of what the receiver has
  obtain ⟨S3, hp3⟩ := hrep3.live
  have hlt3 := hrep3.lt_delivered
  have hdelivered := hp3.fifo.inv.received.delivered_eq
  rw [← hacked3] at hrep3 hlt
  obtain ⟨s4, reply, hstep4, -, hsender4, hacked4, -, -, hreplies4, hack⟩ :=
    hp3.fifo.answer_first hlt hrep3.data pktNew
  obtain ⟨S4, hp4⟩ := progress_step (e := .deliver pktNew) hp3 trivial trivial hstep4
  rw [absorb_of_mem (mem_of_lt_next (hdelivered ▸ hlt3)), ← hdelivered] at hreplies4 hack
  rw [hrep3.replies, List.nil_append] at hreplies4
  obtain ⟨s5, hstep5, hfollows, hp5, hacked5⟩ :=
    hp4.acknowledge (by rw [hsender4]; exact hrep3.wait) hreplies4 hack
      (hacked4.trans_le hlt3.le) (by rw [hsender4, hacked4]; exact hok)
  refine ⟨s5, ((hreach1.trans hreach2).trans hreach3).trans
    (Reaches.head hstep4 ⟨trivial, trivial⟩ (Reaches.single hstep5 ⟨rfl, hfollows⟩)),
    Or.inr ⟨⟨_, hp5⟩, ?_⟩⟩
  omega

/-- **No dead end.** Whatever happened in a run that keeps to the condition of `not_stuck`, a
further such run ends the sender's loop with success and the whole file written. -/
theorem no_dead_end (chunks : List Chunk) (buf : Buffer) {es : List Event}
    (hes : ∀ e ∈ es, e.InOrder)
    (h : Along step (fun s e _ => AckFollows s e) (Sys.start chunks buf) es) {s : Sys}
    (hs : exec step (Sys.start chunks buf) es = some s) :
    ∃ s', Reaches step (fun s e _ => e.InOrder ∧ AckFollows s e) s s' ∧
      s'.sender.pc = .success ∧
      s'.receiver.output.flatten = (chunks.map Subtype.val).flatten := by
  obtain ⟨S, hp⟩ := progress_reaches (progress_start chunks buf)
    ⟨es, (Along.of_forall hes).and h, hs⟩
  obtain ⟨s', hreach, hdone⟩ : ∃ s', Reaches step Steady s s' ∧ s'.sender.pc = .success := by
    refine exists_reaches (I := fun s => ∃ S, Progress chunks S s)
      (fun s => s.sender.sendingStack.length) ?_ ⟨S, hp⟩
    rintro s ⟨S, hp⟩
    obtain ⟨s1, hreach1, hdone | ⟨hsilent, hacked1⟩⟩ := reaches_silent hp
    · exact ⟨s1, hreach1, Or.inl hdone⟩
    obtain ⟨S1, hp1⟩ := hsilent.live
    have hsum := hp.fifo.length_eq
    have hsum1 := hp1.fifo.length_eq
    have hbusy := List.length_pos_iff.mpr (hp1.fifo.ends.busy (by simp [hsilent.wait]))
    rcases Nat.lt_or_ge s1.acked chunks.length with hlt | hge
    · obtain ⟨s2, hreach2, hdone | ⟨⟨S2, hp2⟩, hmore⟩⟩ := shrinks hsilent hlt
      · exact ⟨s2, hreach1.trans hreach2, Or.inl hdone⟩
      · have hsum2 := hp2.fifo.length_eq
        exact ⟨s2, hreach1.trans hreach2, Or.inr ⟨⟨S2, hp2⟩, by omega⟩⟩
    · obtain ⟨s2, hreach2, hdone⟩ := ends_last hsilent (by omega)
      exact ⟨s2, hreach1.trans hreach2, Or.inl hdone⟩
  obtain ⟨S', hp'⟩ := progress_reaches hp hreach
  exact ⟨s', hreach, hdone, hp'.fifo.transfer.sender_end (Or.inl hdone)⟩

end Recovery

set_option maxRecDepth 8000 in
open Zlib.Standard in
/-- The ACK of packet 0 is lost, and packet 1 was asked for by a NACK and is lost too. -/
theorem no_dead_end_lost :
    ∃ s, exec step (Sys.start (fileOf 1) cleared)
      [.transmit 1, .dupData 0, .deliver pktNew, .damagedData pktNew (List.replicate 12 0),
        .loseReply 0, .reply 0 cleared, .transmit 1, .loseData 0] = some s ∧
      ∃ s', Reaches step (fun s e _ => e.InOrder ∧ AckFollows s e) s s' ∧
        s'.sender.pc = .success ∧
        s'.receiver.output.flatten = ((fileOf 1).map Subtype.val).flatten := by
  obtain ⟨s, hs⟩ := Option.isSome_iff_exists.mp
    (by decide +kernel : (exec step (Sys.start (fileOf 1) cleared)
      [.transmit 1, .dupData 0, .deliver pktNew, .damagedData pktNew (List.replicate 12 0),
        .loseReply 0, .reply 0 cleared, .transmit 1, .loseData 0]).isSome)
  exact ⟨s, hs, no_dead_end (fileOf 1) cleared (by decide) (by decide +kernel) hs⟩

/-! ## Dead ends -/

/-- The first packet was never sent, nothing can be sent, and nothing is in flight. -/
structure DeadEnd (s : Sys) : Prop where
  running : s.sender.pc = .top ∨ s.sender.pc = .wait
  nonempty : s.sender.sendingStack ≠ []
  counted : s.sender.lastpacketsSentCount ≤ 5
  unsent : ¬ SentAt s.sender.sendingStack 0
  blocked : ¬ s.sender.MaySend ∨ stackGetPkt s.sender.sendingStack s.sender.seqnumToSend = none
  data : s.data = []
  replies : s.replies = []

theorem findExpired_unsent {stack : Stack} (h : ¬ SentAt stack 0) (clock : ℕ → ℤ) :
    findExpired clock 0 stack = none := by
  cases stack with
  | nil => rfl
  | cons node rest =>
    rw [findExpired, if_neg]
    exact fun hts => h ⟨node, rfl, hts⟩

/-- Only `pc` moves. -/
theorem DeadEnd.move {pc : Pc} (h : DeadEnd s) (hpc : pc = .top ∨ pc = .wait) :
    DeadEnd { s with sender := { s.sender with pc := pc } } :=
  ⟨hpc, h.nonempty, h.counted, h.unsent,
    h.blocked.imp_left fun hnot hmay => hnot ⟨hmay.notHeld, hmay.inRange, hmay.window⟩,
    h.data, h.replies⟩

section DeadEnds

variable [Zlib]

/-- The head of the loop is passed without a transmission. -/
theorem DeadEnd.transmit_eq (h : DeadEnd s) (now : UInt32) :
    transmit now s.sender = ({ s.sender with pc := .wait }, none) := by
  rcases transmit_cases now s.sender with hnone | ⟨pkt, hmay, hget, -⟩
  · exact hnone
  · rcases h.blocked with hblocked | hblocked
    · exact absurd hmay hblocked
    · rw [hblocked] at hget
      exact absurd hget (by simp)

/-- **The step**, one case for each event. -/
theorem DeadEnd.step {e : Event} (h : DeadEnd s) (hs : step s e = some s') :
    ∃ pc, (pc = .top ∨ pc = .wait) ∧ s' = { s with sender := { s.sender with pc := pc } } := by
  have hlost : ∀ {data replies}, data = [] → replies = [] →
      some { s with data := data, replies := replies } = some s' →
      ∃ pc, (pc = .top ∨ pc = .wait) ∧ s' = { s with sender := { s.sender with pc := pc } } := by
    intro data replies hdata hreplies heq
    refine ⟨s.sender.pc, h.running, ?_⟩
    rw [← Option.some.inj heq, hdata, hreplies, h.data, h.replies]
  cases e with
  | transmit now =>
    obtain ⟨-, -, heq⟩ := step_transmit hs
    rw [h.transmit_eq now] at heq
    refine ⟨.wait, Or.inr rfl, ?_⟩
    rw [heq, Option.toList_none, List.map_nil, List.append_nil]
  | idle clock =>
    obtain ⟨hwait, heq⟩ := step_idle hs
    have hnone := findExpired_unsent h.unsent clock
    rcases wakeUp_cases clock s.sender with ⟨runner, hfound, -⟩ | hw | hw
    · rw [hnone] at hfound
      exact absurd hfound (by simp)
    · exact ⟨s.sender.pc, h.running, by rw [heq, hw]⟩
    · obtain ⟨pc, hpc⟩ := endIteration_eq s.sender false
      refine ⟨pc, ?_, by rw [heq, hw, hpc]⟩
      rcases endIteration_pc s.sender false with ⟨htop, -⟩ | ⟨-, h5 | hnil | hbreak⟩
      · rw [hpc] at htop
        exact Or.inl htop
      · exact absurd h.counted (by omega)
      · exact absurd hnil h.nonempty
      · exact absurd hbreak (by simp)
  | reply i junk =>
    obtain ⟨frame, hframe, -⟩ := step_reply hs
    rw [h.replies] at hframe
    exact absurd hframe (by simp)
  | damagedReply i datagram junk =>
    rw [Trtp.step, h.replies, if_neg (by simp)] at hs
    exact absurd hs (by simp)
  | deliver dangling =>
    obtain ⟨frame, rest, hd, -⟩ := step_deliver hs
    rw [h.data] at hd
    exact absurd hd (by simp)
  | damagedData dangling datagram =>
    obtain ⟨frame, rest, hd, -⟩ := step_damagedData hs
    rw [h.data] at hd
    exact absurd hd (by simp)
  | loseData i => exact hlost (by rw [h.data]; rfl) h.replies hs
  | dupData i => exact hlost (by rw [h.data]; simp [duplicate]) h.replies hs
  | loseReply i => exact hlost h.data (by rw [h.replies]; rfl) hs
  | dupReply i => exact hlost h.data (by rw [h.replies]; simp [duplicate]) hs

/-- **Nothing leads out of a dead end**: in no run, in order or not, does the sender's loop end, or
another packet arrive. -/
theorem dead_end (h : DeadEnd s) (es : List Event) (hs : exec step s es = some s') :
    DeadEnd s' ∧ s'.sender.sendingStack = s.sender.sendingStack ∧ s'.receiver = s.receiver := by
  refine exec_inv (I := fun t => DeadEnd t ∧
    t.sender.sendingStack = s.sender.sendingStack ∧ t.receiver = s.receiver)
    (C := fun _ _ _ => True) ?_ ⟨h, rfl, rfl⟩ (Along.of_forall fun _ _ => trivial) hs
  rintro t e t' ⟨hdead, hstack, hreceiver⟩ - ht
  obtain ⟨pc, hpc, rfl⟩ := hdead.step ht
  exact ⟨hdead.move hpc, hstack, hreceiver⟩

end DeadEnds

set_option maxRecDepth 8000 in
open Zlib.Standard in
/-- The ACK of packet 1 read before packet 1 is sent again: packet 2 is never sent. -/
theorem dead_end_nackedAhead :
    ∃ s, exec step (Sys.start (fileOf 1) cleared) nackedAhead = some s ∧
      ∀ es s', exec step s es = some s' → DeadEnd s' ∧
        s'.sender.sendingStack = s.sender.sendingStack ∧ s'.receiver = s.receiver := by
  have hrun : (exec step (Sys.start (fileOf 1) cleared) nackedAhead).map (fun s =>
      (s.sender.pc, s.sender.sendingStack.map fun node => node.pkt.timestamp,
        s.sender.lastpacketsSentCount,
        decide (isInRange s.sender.lastSeqnumAcked s.sender.seqnumToSend), s.data.length,
        s.replies.length)) = some (.top, [0], 0, false, 0, 0) := by
    decide +kernel
  obtain ⟨s, hs, hread⟩ := Option.map_eq_some_iff.mp hrun
  simp only [Prod.mk.injEq, decide_eq_false_iff_not, List.length_eq_zero_iff] at hread
  obtain ⟨htop, hfresh, hcount, hrange, hdata, hreplies⟩ := hread
  refine ⟨s, hs, fun es s' => dead_end ⟨Or.inl htop, fun hnil => ?_, by omega, ?_,
    Or.inl fun hmay => hrange hmay.inRange, hdata, hreplies⟩ es⟩
  · rw [hnil] at hfresh
    exact absurd hfresh (by simp)
  · rintro ⟨node, hnode, hts⟩
    have hzero : node.pkt.timestamp ∈ s.sender.sendingStack.map fun node => node.pkt.timestamp :=
      List.mem_map_of_mem (List.mem_of_getElem? hnode)
    rw [hfresh, List.mem_singleton] at hzero
    exact hts hzero

end Trtp
