import Trtp.System.Fifo

/-!
# The sender keeps something to wait for (`read_write_loop_sender.c:87-315`)

At the head of the main loop the first packet must have been sent, so that its timer runs, or be
sent in this iteration. `seqnumToSend` is set back behind a retransmission to the number that
follows `lastEncodedSeqnum`, and `lastEncodedSeqnum` only moves with packets that were sent while
no retransmission was asked for. A packet that is sent for the first time because of a NACK does
not move it.

* `Progress chunks S s`: in the inner loop the first packet was sent; where it was not,
  `seqnumToSend` names it and the window is open.
* `not_stuck`: **as long as no ACK names a packet that was never sent and does not follow
  `lastEncodedSeqnum`, the sender is never stuck**.
* `stuck`: a NACK for the next packet, then the ACK of it.
-/

namespace Trtp

open Trtp.Run Trtp.Reassembly

variable {chunks : List Chunk} {S : Finset ℕ} {s s' : Sys} {e : Event}

/-- The packet that a flag asks for, `k`: it was sent, or the receiver asked for it. -/
structure Asked (s : Sys) (k : ℕ) : Prop where
  names : s.sender.seqnumToSend = UInt8.ofNat k
  acked_le : s.acked ≤ k
  known : k ≤ s.receiver.delivered ∨ SentAt s.sender.sendingStack (k - s.acked)

/-- A request that was not granted: for the terminating packet, or behind the window. -/
structure Pending (chunks : List Chunk) (s : Sys) (k : ℕ) : Prop where
  names : s.sender.seqnumToSend = UInt8.ofNat k
  acked_le : s.acked ≤ k
  le_delivered : k ≤ s.receiver.delivered
  refused : chunks.length ≤ k ∨ k = s.acked + 31

section Progress

variable [Zlib]

/-- What the sender is about to do, over the joint invariant. -/
structure Progress (chunks : List Chunk) (S : Finset ℕ) (s : Sys) : Prop where
  fifo : Fifo chunks S s
  waiting : s.sender.pc = .wait → SentAt s.sender.sendingStack 0
  ready : s.sender.pc = .top → ¬ SentAt s.sender.sendingStack 0 →
    s.sender.seqnumToSend = UInt8.ofNat s.acked ∧ s.sender.receiverWindowSize ≠ 0
  restored : s.sender.flagged = false →
    s.sender.seqnumToSend = incrementSeqnum s.sender.lastEncodedSeqnum ∨
      s.sender.pc = .top ∧ ¬ SentAt s.sender.sendingStack 0
  asked : s.sender.pc = .top → s.sender.flagged = true → ∃ k, Asked s k
  pending : s.sender.pc = .wait → s.sender.flagged = true → ∃ k, Pending chunks s k

theorem progress_start (chunks : List Chunk) (buf : Buffer) :
    Progress chunks ∅ (Sys.start chunks buf) := by
  have hfifo := fifo_start chunks buf
  have hfresh := not_sentAt_of_fresh (readFile_holds chunks).2 0
  refine ⟨hfifo, ?_, ?_, ?_, ?_, ?_⟩
  · rw [start_sender]
    exact fun hc => absurd hc (by simp)
  · rw [acked_start, start_sender]
    exact fun _ _ => ⟨rfl, by simp⟩
  · rw [start_sender]
    exact fun _ => Or.inr ⟨rfl, hfresh⟩
  · rw [start_sender]
    exact fun _ hc => absurd hc (by simp [Sender.flagged])
  · rw [start_sender]
    exact fun hc => absurd hc (by simp)

/-- A packet of the stack, by its position. -/
theorem Fifo.getElem? (h : Fifo chunks S s) {i : ℕ} (hi : i < s.sender.sendingStack.length) :
    ∃ node, s.sender.sendingStack[i]? = some node ∧ node.seqnum = UInt8.ofNat (s.acked + i) :=
  ⟨_, List.getElem?_eq_getElem hi,
    h.base.base.holds.numbered.getElem? (List.getElem?_eq_getElem hi)⟩

/-- What was delivered was sent. -/
theorem Fifo.sentAt_of_delivered (h : Fifo chunks S s) {k : ℕ} (hk : s.acked ≤ k)
    (hlt : k < s.receiver.delivered) : SentAt s.sender.sendingStack (k - s.acked) := by
  rw [h.inv.received.delivered_eq] at hlt
  exact h.inv.sent k (Or.inl (mem_of_lt_next hlt)) hk

/-! ## The sender's steps -/

/-- **An iteration that starts with a first packet never sent sends it.** -/
theorem Progress.sends_first (h : Progress chunks S s) (htop : s.sender.pc = .top)
    (hnot : ¬ SentAt s.sender.sendingStack 0) (now : UInt32) :
    ∃ datagram, (transmit now s.sender).2 = some datagram := by
  obtain ⟨hseq, hwin⟩ := h.ready htop hnot
  have hne := h.fifo.ends.busy (by simp [htop])
  obtain ⟨node, hnode, hnumber⟩ := h.fifo.getElem? (List.length_pos_iff.mpr hne)
  exact ⟨_, h.fifo.base.base.sends hnode (by omega) (fun _ => rfl)
    (hseq.trans hnumber.symm) (Or.inl hwin) now⟩

/-- A request that is not granted stays, for one of two reasons. -/
theorem Progress.pending_of_asked (h : Progress chunks S s) {now : UInt32} {k : ℕ}
    (hflag : s.sender.flagged = true) (hask : Asked s k)
    (hnone : (transmit now s.sender).2 = none) : Pending chunks s k := by
  have hsum := h.fifo.length_eq
  have hle := hask.acked_le
  have hfar := h.fifo.delivered_le
  -- inside the window, and not the terminating packet, it would have been sent
  have hgrant : k - s.acked < s.sender.sendingStack.length → k - s.acked ≤ 30 →
      (k - s.acked + 1 = s.sender.sendingStack.length → k - s.acked = 0) → False := by
    intro hlt h30 hlast
    obtain ⟨node, hnode, hnumber⟩ := h.fifo.getElem? hlt
    have hseq : s.sender.seqnumToSend = node.seqnum := by
      rw [hask.names, hnumber, Nat.add_sub_cancel' hle]
    rw [h.fifo.base.base.sends hnode h30 hlast hseq (Or.inr hflag) now] at hnone
    exact absurd hnone (by simp)
  have hdelivered : k ≤ s.receiver.delivered := by
    rcases hask.known with hk | hsent
    · exact hk
    · exact absurd (hgrant hsent.lt (h.fifo.base.base.sent_le _ hsent)
        (h.fifo.base.base.last_first _ hsent)) id
  refine ⟨hask.names, hle, hdelivered, ?_⟩
  by_contra hneither
  exact hgrant (by omega) (by omega) (by omega)

theorem Progress.transmit {now : UInt32} (h : Progress chunks S s)
    (hs : step s (.transmit now) = some s') : Progress chunks S s' := by
  have hfifo := h.fifo.transmit hs
  obtain ⟨-, hacked⟩ := h.fifo.inv.transmit hs
  obtain ⟨htop, hnow, rfl⟩ := step_transmit hs
  rcases transmit_cases now s.sender with hnone | ⟨pkt, -, hget, hsent⟩
  · -- nothing was sent, so the first packet was sent before
    have h2 : (Trtp.transmit now s.sender).2 = none := by rw [hnone]
    have hfirst : SentAt s.sender.sendingStack 0 := by
      by_contra hnot
      obtain ⟨datagram, hd⟩ := h.sends_first htop hnot now
      rw [h2] at hd
      exact absurd hd (by simp)
    have hpending : s.sender.flagged = true → ∃ k, Pending chunks s k := by
      intro hflag
      obtain ⟨k, hask⟩ := h.asked htop hflag
      exact ⟨k, h.pending_of_asked hflag hask h2⟩
    rw [hnone] at hfifo ⊢
    refine ⟨hfifo, fun _ => hfirst, fun hc => absurd hc (by simp), fun hflag => ?_,
      fun hc => absurd hc (by simp), fun _ hflag => ?_⟩
    · exact Or.inl ((h.restored hflag).resolve_right fun hc => hc.2 hfirst)
    · obtain ⟨k, hk⟩ := hpending hflag
      exact ⟨k, ⟨hk.names, hk.acked_le, hk.le_delivered, hk.refused⟩⟩
  · obtain ⟨-, -, -, -, hsentAt⟩ := sendNext_sent h.fifo.inv.holds hnow hget
    obtain ⟨hclear, hnext⟩ : (sendNext now s.sender pkt).1.flagged = false ∧
        (sendNext now s.sender pkt).1.seqnumToSend =
          incrementSeqnum (sendNext now s.sender pkt).1.lastEncodedSeqnum :=
      advance_restores _
    rw [hsent] at hfifo ⊢
    refine ⟨hfifo, fun _ => (hsentAt 0).mpr ?_, fun hc => absurd hc (by simp),
      fun _ => Or.inl hnext, fun hc => absurd hc (by simp), fun _ hc => ?_⟩
    · by_cases hfirst : SentAt s.sender.sendingStack 0
      · exact Or.inr hfirst
      · rw [(h.ready htop hfirst).1, offset_self]
        exact Or.inl rfl
    · exact absurd (hclear.symm.trans hc) (by simp)

/-- The end of an iteration in which the first packet stayed and nothing else changed. -/
theorem Progress.next_iteration (h : Progress chunks S s) (hwait : s.sender.pc = .wait)
    (hfifo : Fifo chunks S s') (hacked : s'.acked = s.acked) (hreceiver : s'.receiver = s.receiver)
    (hsender : s'.sender = endIteration s.sender false) : Progress chunks S s' := by
  obtain ⟨pc, hpc⟩ := endIteration_eq s.sender false
  rw [← hsender] at hpc
  have hnot : s'.sender.pc ≠ .wait := hsender ▸ endIteration_ne_wait s.sender false
  refine ⟨hfifo, fun hc => absurd hc hnot, fun _ hc => ?_, fun hflag => Or.inl ?_,
    fun _ hflag => ?_, fun hc => absurd hc hnot⟩
  · rw [hpc] at hc
    exact absurd (h.waiting hwait) hc
  · rw [hpc] at hflag ⊢
    exact (h.restored hflag).resolve_right fun hc => by simp [hwait] at hc
  · rw [hpc] at hflag
    obtain ⟨k, hk⟩ := h.pending hwait hflag
    refine ⟨k, ⟨by rw [hpc]; exact hk.names, hacked ▸ hk.acked_le, Or.inl ?_⟩⟩
    rw [hreceiver]
    exact hk.le_delivered

/-- A packet was asked for while the first one has its timer running. -/
theorem Progress.of_asked {t : Sender} {k : ℕ} {mainBreak : Bool} (hfifo : Fifo chunks S s')
    (hsender : s'.sender = endIteration t mainBreak) (hfirst : SentAt t.sendingStack 0)
    (hflag : t.flagged = true) (hask : Asked s' k) : Progress chunks S s' := by
  obtain ⟨pc, hpc⟩ := endIteration_eq t mainBreak
  rw [← hsender] at hpc
  have hnot : s'.sender.pc ≠ .wait := hsender ▸ endIteration_ne_wait t mainBreak
  refine ⟨hfifo, fun hc => absurd hc hnot, fun _ hc => ?_, fun hclear => ?_,
    fun _ _ => ⟨k, hask⟩, fun hc => absurd hc hnot⟩
  · rw [hpc] at hc
    exact absurd hfirst hc
  · rw [hpc] at hclear
    exact absurd (hflag.symm.trans hclear) (by simp)

theorem Progress.damagedReply {i : ℕ} {datagram : List UInt8} {junk : Buffer}
    (h : Progress chunks S s) (hs : step s (.damagedReply i datagram junk) = some s') :
    Progress chunks S s' := by
  have hfifo := h.fifo.damagedReply hs
  obtain ⟨hwait, hrej, heq⟩ := step_damagedReply hs
  have hsender : s'.sender = endIteration s.sender false := by
    rw [heq]
    exact respond_rejected hrej
  refine h.next_iteration hwait hfifo (acked_congr (by rw [heq]) ?_) (by rw [heq]) hsender
  rw [hsender, endIteration_sendingStack]

theorem Progress.idle {clock : ℕ → ℤ} (h : Progress chunks S s)
    (hs : step s (.idle clock) = some s') : Progress chunks S s' := by
  have hfifo := h.fifo.idle hs
  obtain ⟨hwait, heq⟩ := step_idle hs
  have hstack : s'.sender.sendingStack = s.sender.sendingStack := by
    rw [heq]
    exact (wakeUp_keeps clock s.sender).1
  have hacked := acked_congr (by rw [heq]) hstack
  rcases wakeUp_cases clock s.sender with ⟨runner, hfound, hw⟩ | hw | hw
  · -- the timer of a packet that was sent
    obtain ⟨i, hi, hts⟩ := findExpired_some hfound
    have hsender : s'.sender = endIteration (s.sender.expire runner) false := by
      rw [heq]
      exact hw
    obtain ⟨pc, hpc⟩ := endIteration_eq (s.sender.expire runner) false
    refine Progress.of_asked (k := s.acked + i) hfifo hsender (h.waiting hwait) rfl
      ⟨?_, hacked ▸ Nat.le_add_right _ _, Or.inr ?_⟩
    · rw [hsender, hpc]
      exact h.fifo.base.base.holds.numbered.getElem? hi
    · rw [hstack, hacked, Nat.add_sub_cancel_left]
      exact ⟨runner, hi, hts⟩
  · have hsame : s' = s := by rw [heq, hw]
    rw [hsame]
    exact h
  · refine h.next_iteration hwait hfifo hacked (by rw [heq]) ?_
    rw [heq]
    exact hw

/-- A NACK asks for the packet that was missing when it was sent. -/
theorem Progress.nack {junk : Buffer} {frame : ℕ × List UInt8} (h : Progress chunks S s)
    (hwait : s.sender.pc = .wait) (hfifo : Fifo chunks S s') (hmem : frame ∈ s.replies)
    (hrep : IsReply .nack frame.1 frame.2) (hreceiver : s'.receiver = s.receiver)
    (htotal : s'.total = s.total)
    (hsender : s'.sender = respond s.sender (some frame.2) junk) : Progress chunks S s' := by
  obtain ⟨window, ts, -, h31, hwire⟩ := hrep
  obtain ⟨mainBreak, hresp⟩ := respond_nack s.sender junk ts (UInt8.ofNat frame.1) h31
  rw [hwire, hresp] at hsender
  obtain ⟨pc, hpc⟩ := endIteration_eq { s.sender with
    receiverWindowSize := window
    seqnumToSend := UInt8.ofNat frame.1
    hasNACKed := true } mainBreak
  rw [← hsender] at hpc
  have hacked : s'.acked = s.acked := acked_congr htotal (by rw [hpc])
  refine Progress.of_asked (k := frame.1) hfifo hsender (h.waiting hwait) ?_ ⟨?_, ?_, Or.inl ?_⟩
  · simp [Sender.flagged]
  · rw [hpc]
  · exact hacked.le.trans (h.fifo.fresh frame hmem)
  · rw [hreceiver]
    exact (h.fifo.inv.replies frame hmem).1

/-- An ACK for a packet that was never sent, read with nothing asked for, carries the number that
follows `lastEncodedSeqnum`. -/
def AckFollows (s : Sys) : Event → Prop
  | .reply i junk => ∀ frame ∈ s.replies[i]?, (replyOf junk frame.2).2.type = .ack →
      s.sender.flagged = false →
        ∀ pkt ∈ stackGetPkt s.sender.sendingStack (replyOf junk frame.2).2.seqnum,
          pkt.timestamp = 0 →
            (replyOf junk frame.2).2.seqnum = incrementSeqnum s.sender.lastEncodedSeqnum
  | _ => True

instance (s : Sys) : (e : Event) → Decidable (AckFollows s e)
  | .reply i junk => inferInstanceAs (Decidable (∀ frame ∈ s.replies[i]?,
      (replyOf junk frame.2).2.type = .ack → s.sender.flagged = false →
        ∀ pkt ∈ stackGetPkt s.sender.sendingStack (replyOf junk frame.2).2.seqnum, _ → _))
  | .transmit _ | .damagedReply _ _ _ | .idle _ | .deliver _ | .damagedData _ _ | .loseData _
  | .dupData _ | .loseReply _ | .dupReply _ => isTrue trivial

/-- Where an ACK leads to a packet that was never sent, `seqnumToSend` names that packet. -/
theorem Progress.names_unsent {k m : ℕ} (h : Progress chunks S s) (hwait : s.sender.pc = .wait)
    (hkm : s.acked + m = k) (hk : k ≤ s.receiver.delivered) (hend : k ≤ chunks.length)
    (hnot : ¬ SentAt s.sender.sendingStack m)
    (hfollows : s.sender.flagged = false →
      ∀ pkt ∈ stackGetPkt s.sender.sendingStack (UInt8.ofNat k), pkt.timestamp = 0 →
        UInt8.ofNat k = incrementSeqnum s.sender.lastEncodedSeqnum) :
    s.sender.seqnumToSend = UInt8.ofNat k := by
  have hsum := h.fifo.length_eq
  have hfar := h.fifo.delivered_le
  -- it is the one the receiver expects
  have hexp : k = s.receiver.delivered := by
    refine le_antisymm hk (not_lt.mp fun hlt => ?_)
    have hsent := h.fifo.sentAt_of_delivered (by omega) hlt
    rw [← hkm, Nat.add_sub_cancel_left] at hsent
    exact hnot hsent
  cases hflag : s.sender.flagged with
  | true =>
    obtain ⟨i, hpend⟩ := h.pending hwait hflag
    have hle := hpend.le_delivered
    have hik : i = k := by
      rcases hpend.refused with hterm | hwindow <;> omega
    exact hik ▸ hpend.names
  | false =>
    obtain ⟨node, hnode, hnumber⟩ := h.fifo.getElem? (i := m) (by omega)
    have hget := h.fifo.base.base.holds.get_of_getElem? hnode (by omega)
    rw [hnumber, hkm] at hget
    have hts : node.pkt.timestamp = 0 := by
      by_contra hne
      exact hnot ⟨node, hnode, hne⟩
    have hnext := (h.restored hflag).resolve_right fun hc => by simp [hwait] at hc
    exact hnext.trans (hfollows hflag node.pkt hget hts).symm

/-- **An ACK leaves a first packet that was sent, or one that `seqnumToSend` names.** -/
theorem Progress.ack {junk : Buffer} {frame : ℕ × List UInt8} (h : Progress chunks S s)
    (hok : AckFollows s (.reply 0 junk)) (hwait : s.sender.pc = .wait)
    (hfifo : Fifo chunks S s') (hframe : s.replies[0]? = some frame)
    (hrep : IsReply .ack frame.1 frame.2) (hreceiver : s'.receiver = s.receiver)
    (hsender : s'.sender = respond s.sender (some frame.2) junk) : Progress chunks S s' := by
  have hmem := List.mem_of_getElem? hframe
  obtain ⟨window, ts, hpos, h31, hwire⟩ := hrep
  obtain ⟨packet, hdec, htype, hseq, -⟩ := replyOf_wire junk .ack window ts
    (UInt8.ofNat frame.1) (by decide)
  have hfollows := hok frame hframe (by rw [hwire, hdec]; exact htype)
  rw [hwire, hdec] at hfollows
  simp only [hseq] at hfollows
  have hfresh := h.fifo.fresh frame hmem
  have hk := (h.fifo.inv.replies frame hmem).1
  obtain ⟨m, hstep, -⟩ := h.fifo.inv.ack hk fun hlt => absurd hfresh (by omega)
  have hkm := hstep.fresh hfresh
  obtain ⟨t, counter, mainBreak, hresp, ht⟩ :=
    respond_ack s.sender junk ts (UInt8.ofNat frame.1) h31
  obtain ⟨pc, hpc⟩ := endIteration_eq t mainBreak
  rw [hwire, hresp] at hsender
  have hnot : s'.sender.pc ≠ .wait := hsender ▸ endIteration_ne_wait t mainBreak
  rw [← hsender] at hpc
  have hstack : t.sendingStack = s.sender.sendingStack.drop m := by
    rw [← hstep.removed]
    rcases ht with rfl | ⟨-, rfl⟩ <;> rfl
  have hacked : s'.acked = frame.1 := by
    have hsum := h.fifo.length_eq
    have hsum' := hfifo.length_eq
    have hle := hstep.le_length
    rw [hpc] at hsum'
    simp only [hstack, List.length_drop] at hsum'
    omega
  have hend : s'.sender.pc = .top → frame.1 ≤ chunks.length := by
    intro htop
    have hpos' := List.length_pos_iff.mpr (hfifo.ends.busy (by simp [htop]))
    have hsum' := hfifo.length_eq
    omega
  have hfar := h.fifo.delivered_le
  refine ⟨hfifo, fun hc => absurd hc hnot, fun htop hc => ?_, fun hclear => Or.inl ?_,
    fun htop hflag => ?_, fun hc => absurd hc hnot⟩
  · rw [hpc] at hc
    simp only [hstack, sentAt_drop, Nat.add_zero] at hc
    rw [hacked, hpc]
    rcases ht with rfl | ⟨hbase, rfl⟩
    · exact ⟨h.names_unsent hwait hkm hk (hend htop) hc hfollows, hpos⟩
    · -- a repeated ACK removes nothing
      have hsame := h.fifo.base.base.base_eq (h.fifo.ends.busy (by simp [hwait]))
      have hm := ofNat_inj_of_near (hbase.symm.trans hsame) (by omega) (by omega)
      have h0 : m = 0 := by omega
      subst h0
      exact absurd (h.waiting hwait) hc
  · rcases ht with rfl | ⟨-, rfl⟩
    · rw [hpc] at hclear ⊢
      exact (h.restored hclear).resolve_right fun hc => by simp [hwait] at hc
    · rw [hpc] at hclear
      simp [Sender.flagged] at hclear
  · rcases ht with rfl | ⟨-, rfl⟩
    · rw [hpc] at hflag
      obtain ⟨k, hpend⟩ := h.pending hwait hflag
      have hlt := hend htop
      refine ⟨k, ⟨by rw [hpc]; exact hpend.names, ?_, Or.inl ?_⟩⟩
      · rw [hacked]
        rcases hpend.refused with hterm | hwindow <;> omega
      · rw [hreceiver]
        exact hpend.le_delivered
    · refine ⟨frame.1, ⟨by rw [hpc], hacked.le, Or.inl ?_⟩⟩
      rw [hreceiver]
      exact hk

/-! ## Runs -/

/-- A step of the receiver or of the network. -/
theorem Progress.quiet {S' : Finset ℕ} (h : Progress chunks S s) (hfifo : Fifo chunks S' s')
    (hsender : s'.sender = s.sender) (hle : s.receiver.delivered ≤ s'.receiver.delivered) :
    Progress chunks S' s' := by
  have hacked : s'.acked = s.acked :=
    acked_congr (hfifo.inv.total_eq.trans h.fifo.inv.total_eq.symm) (by rw [hsender])
  refine ⟨hfifo, ?_, ?_, ?_, fun htop hflag => ?_, fun hwait hflag => ?_⟩
  · rw [hsender]
    exact h.waiting
  · rw [hsender, hacked]
    exact h.ready
  · rw [hsender]
    exact h.restored
  · rw [hsender] at htop hflag
    obtain ⟨k, hk⟩ := h.asked htop hflag
    refine ⟨k, ⟨hsender ▸ hk.names, hacked.le.trans hk.acked_le, ?_⟩⟩
    rw [hsender, hacked]
    exact hk.known.imp_left fun hd => hd.trans hle
  · rw [hsender] at hwait hflag
    obtain ⟨k, hk⟩ := h.pending hwait hflag
    exact ⟨k, ⟨hsender ▸ hk.names, hacked.le.trans hk.acked_le, hk.le_delivered.trans hle,
      hacked ▸ hk.refused⟩⟩

theorem Progress.reply {junk : Buffer} (h : Progress chunks S s)
    (hok : AckFollows s (.reply 0 junk)) (hs : step s (.reply 0 junk) = some s') :
    Progress chunks S s' := by
  have hfifo := h.fifo.reply hs
  obtain ⟨frame, hframe, hwait, heq⟩ := step_reply hs
  have hmem := List.mem_of_getElem? hframe
  have hreceiver : s'.receiver = s.receiver := by rw [heq]
  have hsender : s'.sender = respond s.sender (some frame.2) junk := by rw [heq]
  rcases (h.fifo.inv.replies frame hmem).2 with hack | hnack
  · exact h.ack hok hwait hfifo hframe hack hreceiver hsender
  · exact h.nack hwait hfifo hmem hnack hreceiver (by rw [heq]) hsender

/-- **The step**, one case for each event. -/
theorem progress_step (h : Progress chunks S s) (he : e.InOrder) (hok : AckFollows s e)
    (hs : step s e = some s') : ∃ S', Progress chunks S' s' := by
  have hnetwork : s'.sender = s.sender → s'.receiver = s.receiver →
      ∃ S', Progress chunks S' s' := by
    intro hsender hreceiver
    obtain ⟨S', hfifo⟩ := fifo_step h.fifo he hs
    exact ⟨S', h.quiet hfifo hsender (by rw [hreceiver])⟩
  cases e with
  | transmit now => exact ⟨S, h.transmit hs⟩
  | reply i junk =>
    obtain rfl : i = 0 := he
    exact ⟨S, h.reply hok hs⟩
  | damagedReply i datagram junk => exact ⟨S, h.damagedReply hs⟩
  | idle clock => exact ⟨S, h.idle hs⟩
  | deliver dangling =>
    obtain ⟨frame, rest, -, hfifo, -⟩ := h.fifo.deliver hs
    obtain ⟨-, -, -, -, hsender⟩ := h.fifo.inv.deliver hs
    refine ⟨_, h.quiet hfifo hsender ?_⟩
    rw [h.fifo.inv.received.delivered_eq, hfifo.inv.received.delivered_eq]
    exact next_le_next_absorb S frame.1
  | damagedData dangling datagram =>
    obtain ⟨frame, rest, reply, -, -, -, -, heq⟩ := h.fifo.inv.damagedData hs
    exact hnetwork (by rw [heq]) (by rw [heq])
  | loseData i => exact hnetwork (Option.some.inj hs ▸ rfl) (Option.some.inj hs ▸ rfl)
  | dupData i => exact hnetwork (Option.some.inj hs ▸ rfl) (Option.some.inj hs ▸ rfl)
  | loseReply i => exact hnetwork (Option.some.inj hs ▸ rfl) (Option.some.inj hs ▸ rfl)
  | dupReply i => exact hnetwork (Option.some.inj hs ▸ rfl) (Option.some.inj hs ▸ rfl)

/-- At the head of the main loop, the first packet was sent, or this iteration sends a packet. -/
def NotStuck (s : Sys) : Prop :=
  s.sender.pc = .top → s.sender.sendingStack ≠ [] →
    (∃ first ∈ s.sender.sendingStack.head?, first.pkt.timestamp ≠ 0) ∨
      ∀ now, ∃ datagram, (transmit now s.sender).2 = some datagram

/-- **The sender is never stuck**, in every run whose ACKs for packets that were never sent follow
`lastEncodedSeqnum`. -/
theorem not_stuck (chunks : List Chunk) (buf : Buffer) {es : List Event}
    (hes : ∀ e ∈ es, e.InOrder)
    (h : Along step (fun s e _ => AckFollows s e) (Sys.start chunks buf) es) {s : Sys}
    (hs : exec step (Sys.start chunks buf) es = some s) : NotStuck s := by
  obtain ⟨S, hprogress⟩ : ∃ S, Progress chunks S s := by
    refine exec_inv (I := fun s => ∃ S, Progress chunks S s)
      (C := fun s e _ => e.InOrder ∧ AckFollows s e) ?_ ⟨∅, progress_start chunks buf⟩
      ((Along.of_forall hes).and h) hs
    rintro s e s' ⟨S, hp⟩ ⟨he, hok⟩ hs
    exact progress_step hp he hok hs
  intro htop _
  by_cases hfirst : SentAt s.sender.sendingStack 0
  · obtain ⟨first, hf, hts⟩ := hfirst
    exact Or.inl ⟨first, by rwa [List.head?_eq_getElem?], hts⟩
  · exact Or.inr (hprogress.sends_first htop hfirst)

end Progress

set_option maxRecDepth 8000 in
open Zlib.Standard in
/-- Packet 1 goes out for the first time because of a NACK, and once more before its ACK. -/
theorem not_stuck_repeated :
    ∃ s, exec step (Sys.start (fileOf 1) cleared)
      [.transmit 1, .dupData 0, .deliver pktNew, .damagedData pktNew (List.replicate 12 0),
        .loseReply 0, .reply 0 cleared, .transmit 1, .idle fun _ => 1, .transmit 1,
        .deliver pktNew, .reply 0 cleared] = some s ∧ NotStuck s := by
  obtain ⟨s, hs⟩ := Option.isSome_iff_exists.mp
    (by decide +kernel : (exec step (Sys.start (fileOf 1) cleared)
      [.transmit 1, .dupData 0, .deliver pktNew, .damagedData pktNew (List.replicate 12 0),
        .loseReply 0, .reply 0 cleared, .transmit 1, .idle fun _ => 1, .transmit 1,
        .deliver pktNew, .reply 0 cleared]).isSome)
  exact ⟨s, hs, not_stuck (fileOf 1) cleared (by decide) (by decide +kernel) hs⟩

/-- The ACK of packet 0 is lost, a damaged copy of it brings a NACK for packet 1, and packet 1 is
acknowledged before the sender's next iteration. -/
def nackedAhead : List Event :=
  [.transmit 1, .dupData 0, .deliver pktNew, .damagedData pktNew (List.replicate 12 0),
    .loseReply 0, .reply 0 cleared, .transmit 1, .deliver pktNew, .reply 0 cleared]

set_option maxRecDepth 8000 in
open Zlib.Standard in
/-- **The sender is stuck**: packet 2 was never sent, and `seqnumToSend` is 1 again. -/
theorem stuck : (∀ e ∈ nackedAhead, e.InOrder) ∧
    ∃ s, exec step (Sys.start (fileOf 1) cleared) nackedAhead = some s ∧ ¬ NotStuck s := by
  have hrun : (exec step (Sys.start (fileOf 1) cleared) nackedAhead).map (fun s =>
      (s.sender.pc, s.sender.sendingStack.map fun node => node.pkt.timestamp,
        (transmit 1 s.sender).2)) = some (.top, [0], none) := by
    decide +kernel
  obtain ⟨s, hs, hread⟩ := Option.map_eq_some_iff.mp hrun
  simp only [Prod.mk.injEq] at hread
  obtain ⟨htop, hfresh, hnone⟩ := hread
  refine ⟨by decide, s, hs, fun hnot => ?_⟩
  cases hstack : s.sender.sendingStack with
  | nil =>
    rw [hstack] at hfresh
    exact absurd hfresh (by simp)
  | cons first rest =>
    rw [hstack, List.map_cons, List.cons.injEq] at hfresh
    rcases hnot htop (by simp [hstack]) with ⟨node, hnode, hts⟩ | hsend
    · rw [hstack, List.head?_cons, Option.mem_some_iff] at hnode
      exact hts (hnode ▸ hfresh.1)
    · obtain ⟨datagram, hd⟩ := hsend 1
      rw [hnone] at hd
      exact absurd hd (by simp)

end Trtp
