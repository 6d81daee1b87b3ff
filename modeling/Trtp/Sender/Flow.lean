import Trtp.Lib.Amortize
import Trtp.Sender.Retry

/-!
# What a sender writes, whatever it reads (`read_write_loop_sender.c:87-315`)

Runs of `main` against any replies: any bytes may be read, any `read` may fail, timers expire at
any time, and failed calls are repeated.

* `sends_stack`: **every datagram is the segment of a packet of the file that was not removed**,
  with its window set to 31 and its time to the time of the transmission.
* `writes_le`: **the sender is paced by what it reads.** A valid reply is good for as many datagrams
  as the window it announces, and one more for the retransmission it may ask for; a timer that
  expires and a new call for one each.
* `gives_up_iff`: **without replies**, the loop is left at the sixth expiration of the timer of a
  packet that is alone in the stack, and never with two packets in it.
* `fast_retransmit_iff`: **an ACK asks for a retransmission exactly when it is the third in a row
  with its number**, where the call starts as if number 0 had been acknowledged once.
-/

namespace Trtp

open Trtp.Run

/-! ## What is written -/

/-- The datagram carries a packet that is still in the stack. -/
def OfStack [Zlib] (chunks : List Chunk) (s : Sender) (now : UInt32) (datagram : List UInt8) :
    Prop :=
  ∃ j pkt, removed chunks s ≤ j ∧ j ≤ chunks.length ∧ IsData (contents chunks) j pkt ∧
    pkt.timestamp = now ∧ pktGetWindow pkt = 31 ∧ datagram = wire pkt

section Written

variable [Zlib] {chunks : List Chunk} {m : Main}

/-- What a transmission writes, from a stack that is the end of the file. -/
theorem Calls.written (h : Calls chunks m) {now : UInt32} {datagram : List UInt8}
    (hd : datagram ∈ (transmit now m.sender).2) : OfStack chunks m.sender now datagram := by
  obtain ⟨a, hholds⟩ := h.holds
  rcases transmit_cases now m.sender with hnone | ⟨pkt, -, hget, hsent⟩
  · rw [hnone] at hd
    exact absurd hd (by simp)
  · obtain ⟨node, hnode, -, hdata⟩ := hholds.get hget
    obtain ⟨hlt, -⟩ := List.getElem?_eq_some_iff.mp hnode
    have hstamp := isData_stampPkt hdata now
    have hlen := hholds.length_eq
    rw [hsent, Option.mem_some_iff, sendNext_eq hstamp.sendable] at hd
    refine ⟨_, _, ?_, ?_, hstamp, rfl, rfl, hd.symm⟩
    · rw [removed_eq hholds]
      exact Nat.le_add_right _ _
    · omega

/-- **Only segments of the file are written**, in every run. -/
theorem sends_stack (chunks : List Chunk) (buf : Buffer) (es : List Main.Event) :
    Along Main.step (fun m e _ => ∀ now, e = .transmit now →
      ∀ datagram ∈ (transmit now m.sender).2, OfStack chunks m.sender now datagram)
      (Main.start chunks buf) es := by
  refine Along.of_inv (I := Calls chunks) (C := fun _ _ _ => True)
    (fun _ _ _ h _ hs => h.step hs) ?_ (calls_start chunks buf) (Along.of_forall fun _ _ => trivial)
  intro m e m' h _ _ now _ datagram hd
  exact h.written hd

end Written

/-! ## What pays for it -/

/-- What the sender may write without reading anything: its window, and a retransmission that was
asked for. -/
def Sender.allowance (s : Sender) : ℕ := s.receiverWindowSize.toNat + if s.flagged then 1 else 0

theorem allowance_le (s : Sender) : s.allowance ≤ s.receiverWindowSize.toNat + 1 := by
  unfold Sender.allowance
  split <;> omega

theorem receiverWindowSize_le_allowance (s : Sender) :
    s.receiverWindowSize.toNat ≤ s.allowance := Nat.le_add_right _ _

/-- A transmission uses it up, the retransmission first. -/
theorem allowance_advance {s : Sender} (h : s.receiverWindowSize ≠ 0 ∨ s.flagged = true) :
    s.advance.allowance + 1 = s.allowance := by
  unfold Sender.advance
  by_cases hflag : s.flagged = true
  · rw [if_pos hflag]
    simp [Sender.allowance, Sender.flagged, show (s.hasRTed || s.hasNACKed ||
      s.hasFastRetransmitted) = true from hflag]
  · have hne := h.resolve_right hflag
    have hpos : 0 < s.receiverWindowSize := UInt8.pos_iff_ne_zero.mpr hne
    have hlt := UInt8.lt_iff_toNat_lt.mp hpos
    rw [UInt8.toNat_zero] at hlt
    have hsub : (s.receiverWindowSize - 1).toNat = s.receiverWindowSize.toNat - 1 :=
      UInt8.toNat_sub_of_le _ _ (UInt8.le_iff_toNat_le.mpr hlt)
    rw [if_neg hflag, if_pos hpos]
    have hsame : ({ s with
        lastEncodedSeqnum := s.seqnumToSend
        seqnumToSend := incrementSeqnum s.seqnumToSend
        receiverWindowSize := s.receiverWindowSize - 1 } : Sender).flagged = s.flagged := rfl
    simp only [Sender.allowance, hsame, hsub, Nat.add_right_comm]
    omega

@[simp] theorem endIteration_allowance (s : Sender) (mainBreak : Bool) :
    (endIteration s mainBreak).allowance = s.allowance := by
  obtain ⟨pc, hpc⟩ := endIteration_eq s mainBreak
  rw [hpc]
  rfl

theorem allowance_enter (s : Sender) (buf : List UInt8) :
    (s.enter buf).allowance ≤ s.allowance + 1 := by
  have hone : (s.enter buf).receiverWindowSize = 1 ∧ (s.enter buf).flagged = s.flagged := by
    unfold Sender.enter loopHead
    split <;> exact ⟨rfl, rfl⟩
  rw [Sender.allowance, Sender.allowance, hone.1, hone.2, UInt8.toNat_one]
  omega

section Paced

variable [Zlib] {m m' : Main} {e : Main.Event}

/-- The datagrams that a step writes. -/
def writes (m : Main) : Main.Event → ℕ
  | .transmit now => (transmit now m.sender).2.toList.length
  | .read _ _ | .idle _ | .retry _ => 0

/-- What a step is good for: a valid reply for its window and a retransmission, an expired timer
for a retransmission, a new call for its first packet. -/
def credit (m : Main) : Main.Event → ℕ
  | .transmit _ => 0
  | .read none _ => 0
  | .read (some datagram) junk =>
    if (replyOf junk datagram).1 = .pktOk ∧
        ((replyOf junk datagram).2.type = .ack ∨ (replyOf junk datagram).2.type = .nack) then
      (pktGetWindow (replyOf junk datagram).2).toNat + 1
    else 0
  | .idle clock => if (findExpired clock 0 m.sender.sendingStack).isSome then 1 else 0
  | .retry _ => 1

/-- A reply replaces the window, and sets one flag at most. -/
theorem allowance_respond (s : Sender) (datagram : List UInt8) (junk : Buffer) (loop : ℕ) :
    (respond s (some datagram) junk).allowance ≤
      s.allowance + credit ⟨s, loop⟩ (.read (some datagram) junk) := by
  rw [respond_some, endIteration_allowance, credit]
  rcases processResponse_cases s datagram junk with
    ⟨packet, hrep, htype, hres⟩ | ⟨packet, hrep, htype, hres⟩ | ⟨code, -, -, -, hres⟩
  · rw [hrep, if_pos ⟨rfl, Or.inl htype⟩, hres, processAck_eq]
    have hwindow : (countAck s packet).receiverWindowSize = pktGetWindow packet := by
      obtain ⟨counter, hc | ⟨-, hc⟩⟩ := countAck_eq s packet <;> rw [hc]
    have hle := allowance_le (countAck s packet)
    rw [hwindow] at hle
    exact (show (countAck s packet).allowance ≤ _ from hle).trans (Nat.le_add_left _ _)
  · rw [hrep, if_pos ⟨rfl, Or.inr htype⟩, hres, processNack_eq]
    exact (allowance_le _).trans (Nat.le_add_left _ _)
  · rw [hres]
    exact Nat.le_add_right _ _

theorem allowance_wakeUp (s : Sender) (clock : ℕ → ℤ) (loop : ℕ) :
    (wakeUp clock s).allowance ≤ s.allowance + credit ⟨s, loop⟩ (.idle clock) := by
  rw [credit]
  rcases wakeUp_cases clock s with ⟨runner, hfound, hw⟩ | hw | hw
  · rw [hw, endIteration_allowance, if_pos (by rw [hfound]; rfl)]
    have hle := allowance_le (s.expire runner)
    have hge := receiverWindowSize_le_allowance s
    exact hle.trans (Nat.add_le_add_right hge 1)
  · rw [hw]
    exact Nat.le_add_right _ _
  · rw [hw, endIteration_allowance]
    exact Nat.le_add_right _ _

/-- **The step**: what is written was allowed for. -/
theorem writes_step (hs : m.step e = some m') :
    writes m e + m'.sender.allowance ≤ m.sender.allowance + credit m e := by
  rcases Main.step_cases hs with ⟨now, rfl, -, rfl⟩ | ⟨datagram, junk, rfl, -, rfl⟩ |
    ⟨clock, rfl, -, rfl⟩ | ⟨buf, rfl, -, -, rfl⟩
  · rw [writes, credit, Nat.add_zero]
    rcases transmit_cases now m.sender with hnone | ⟨pkt, hmay, -, hsent⟩
    · rw [hnone]
      exact (Nat.zero_add _).le
    · have hone := allowance_advance (s := { m.sender with
        totalPacketsSent := if pkt.timestamp = 0 then m.sender.totalPacketsSent + 1
          else m.sender.totalPacketsSent
        sendingStack := stackSetPkt m.sender.sendingStack m.sender.seqnumToSend
          (pktEncode (stampPkt now pkt) m.sender.buf (16 + maxPayloadSize)).pkt
        buf := (pktEncode (stampPkt now pkt) m.sender.buf (16 + maxPayloadSize)).buf })
        hmay.window
      rw [hsent]
      change 1 + (sendNext now m.sender pkt).1.allowance ≤ _
      change (sendNext now m.sender pkt).1.allowance + 1 = m.sender.allowance at hone
      omega
  · rw [writes, Nat.zero_add]
    cases datagram with
    | none =>
      rw [credit, Nat.add_zero]
      refine le_of_eq ?_
      simp only [respond, processResponse]
      split
      · simp only [show (-3 : ℤ) ≠ 1 by decide, show (-3 : ℤ) ≠ -2 by decide, if_true, if_false]
        exact endIteration_allowance _ _
      · rfl
    | some datagram => exact allowance_respond m.sender datagram junk m.loop
  · rw [writes, Nat.zero_add]
    exact allowance_wakeUp m.sender clock m.loop
  · rw [writes, Nat.zero_add]
    exact allowance_enter m.sender buf.1

/-- A datagram is read, valid or not. -/
def Main.Event.isRead : Main.Event → Bool
  | .read (some _) _ => true
  | .transmit _ | .read none _ | .idle _ | .retry _ => false

/-- The inner loop without anything to read, or a new call. -/
def Main.Event.isWake : Main.Event → Bool
  | .idle _ | .retry _ => true
  | .transmit _ | .read _ _ => false

theorem credit_le (m : Main) (e : Main.Event) :
    credit m e ≤ (if e.isRead then 32 else 0) + if e.isWake then 1 else 0 := by
  cases e with
  | transmit now => exact Nat.zero_le _
  | read datagram junk =>
    cases datagram with
    | none => exact Nat.zero_le _
    | some datagram =>
      rw [credit]
      split
      · have hlt := (replyOf junk datagram).2.window.isLt
        have hwindow : (pktGetWindow (replyOf junk datagram).2).toNat ≤ 31 := by
          rw [pktGetWindow, UInt8.toNat_ofNat']
          omega
        exact Nat.add_le_add_right hwindow 1
      · exact Nat.zero_le _
  | idle clock =>
    rw [credit]
    split
    · exact le_refl _
    · exact Nat.zero_le _
  | retry buf => exact le_refl _

/-- **The sender is paced by what it reads.** A run writes no more datagrams than the first one and
what its steps are good for, and so no more than 32 for each datagram read, and one for each time
the inner loop had nothing to read and for each further call. -/
theorem writes_le (chunks : List Chunk) (buf : Buffer) {es : List Main.Event}
    (hs : exec Main.step (Main.start chunks buf) es = some m) :
    total Main.step writes (Main.start chunks buf) es + m.sender.allowance ≤
        1 + total Main.step credit (Main.start chunks buf) es ∧
      total Main.step writes (Main.start chunks buf) es ≤
        1 + 32 * es.countP Main.Event.isRead + es.countP Main.Event.isWake := by
  have hpaid : total Main.step writes (Main.start chunks buf) es + m.sender.allowance ≤
      (Main.start chunks buf).sender.allowance +
        total Main.step credit (Main.start chunks buf) es :=
    total_le (I := fun _ => True) (C := fun _ _ _ => True) (V := fun m => m.sender.allowance)
      (fun _ _ _ _ _ _ => trivial) (fun _ _ _ _ _ hs => writes_step hs) trivial
      (Along.of_forall (Q := fun _ => True) fun _ _ => trivial) hs
  have hstart : (Main.start chunks buf).sender.allowance = 1 := by
    unfold Main.start
    rw [enter_eq (boot_nonempty chunks)]
    rfl
  rw [hstart] at hpaid
  refine ⟨hpaid, ?_⟩
  have hcredit : total Main.step credit (Main.start chunks buf) es ≤
      total Main.step (fun _ e => (if e.isRead then 32 else 0) + if e.isWake then 1 else 0)
        (Main.start chunks buf) es := total_mono credit_le _ _
  have hread : total Main.step (fun _ e => if e.isRead then 32 else 0) (Main.start chunks buf) es ≤
      32 * es.countP Main.Event.isRead := total_le_countP (fun _ _ => le_refl _) _ _
  have hwake : total Main.step (fun _ e => if e.isWake then 1 else 0) (Main.start chunks buf) es ≤
      1 * es.countP Main.Event.isWake := total_le_countP (fun _ _ => le_refl _) _ _
  rw [total_add] at hcredit
  omega

end Paced

set_option maxRecDepth 8000 in
open Zlib.Standard in
/-- One byte is sent twice, its timer having expired, and acknowledged. -/
theorem writes_le_again :
    ∃ m, exec Main.step (Main.start byteFile cleared)
      [.transmit 1, .idle fun _ => 6, .transmit 6,
        .read (some (wire (replyPkt 31 .ack 6 1))) cleared, .transmit 6] = some m ∧
      total Main.step writes (Main.start byteFile cleared)
          [.transmit 1, .idle fun _ => 6, .transmit 6,
            .read (some (wire (replyPkt 31 .ack 6 1))) cleared, .transmit 6] ≤
        1 + 32 * 1 + 1 := by
  obtain ⟨m, hm⟩ := Option.isSome_iff_exists.mp
    (by decide +kernel : (exec Main.step (Main.start byteFile cleared)
      [.transmit 1, .idle fun _ => 6, .transmit 6,
        .read (some (wire (replyPkt 31 .ack 6 1))) cleared, .transmit 6]).isSome)
  exact ⟨m, hm, (writes_le byteFile cleared hm).2⟩

/-! ## Without replies -/

theorem length_stackSetPkt (stack : Stack) (seqnum : UInt8) (pkt : Pkt) :
    (stackSetPkt stack seqnum pkt).length = stack.length := by
  induction stack with
  | nil => rfl
  | cons runner next ih =>
    rw [stackSetPkt]
    split
    · rw [List.length_cons, List.length_cons, ih]
    · rfl

/-- Nothing is read, and the call is not over. -/
def Main.Event.Unanswered : Main.Event → Prop
  | .transmit _ | .idle _ => True
  | .read _ _ | .retry _ => False

/-- Whether a timer expires in a step. -/
def expirations (m : Main) : Main.Event → ℕ
  | .idle clock => if (findExpired clock 0 m.sender.sendingStack).isSome then 1 else 0
  | .transmit _ | .read _ _ | .retry _ => 0

/-- A call that heard nothing, with `n` packets in its stack: its loop is left at six timeouts of
the last packet. -/
structure Unheard (n : ℕ) (s : Sender) : Prop where
  length_eq : s.sendingStack.length = n
  place : (s.pc = .top ∨ s.pc = .wait) ∧ s.lastpacketsSentCount ≤ 5 ∨
    s.pc = .success ∧ s.lastpacketsSentCount = 6

/-- The end of an iteration without a reply. -/
theorem unheard_endIteration {n : ℕ} {s : Sender} (hn : 0 < n)
    (hlen : s.sendingStack.length = n) (hle : s.lastpacketsSentCount ≤ 6) :
    Unheard n (endIteration s false) := by
  obtain ⟨pc, hpc⟩ := endIteration_eq s false
  refine ⟨by rw [endIteration_sendingStack, hlen], ?_⟩
  rcases endIteration_pc s false with ⟨htop, -⟩ | ⟨hdone, h5 | hnil | hbreak⟩
  · have h5 := endIteration_top htop
    exact Or.inl ⟨Or.inl htop, by rw [endIteration_lastpacketsSentCount]; exact h5⟩
  · exact Or.inr ⟨hdone, by rw [endIteration_lastpacketsSentCount]; omega⟩
  · rw [hnil, List.length_nil] at hlen
    omega
  · exact absurd hbreak (by simp)

section Unanswered

variable [Zlib] {m m' : Main} {e : Main.Event} {n : ℕ}

/-- **The step**: the count moves with the timer of a packet that is alone. -/
theorem Unheard.step (hn : 0 < n) (h : Unheard n m.sender) (he : e.Unanswered)
    (hs : m.step e = some m') :
    Unheard n m'.sender ∧ m'.sender.lastpacketsSentCount =
      m.sender.lastpacketsSentCount + if n = 1 then expirations m e else 0 := by
  have hrunning : m.sender.pc ≠ .success → m.sender.lastpacketsSentCount ≤ 5 := fun hne =>
    h.place.elim And.right fun hc => absurd hc.1 hne
  rcases Main.step_cases hs with ⟨now, rfl, hpc, rfl⟩ | ⟨datagram, junk, rfl, -, -⟩ |
    ⟨clock, rfl, hpc, rfl⟩ | ⟨buf, rfl, -, -, -⟩
  · have hle := hrunning (by rw [hpc]; decide)
    have hkeep : (transmit now m.sender).1.pc = .wait ∧
        (transmit now m.sender).1.sendingStack.length = m.sender.sendingStack.length ∧
        (transmit now m.sender).1.lastpacketsSentCount = m.sender.lastpacketsSentCount := by
      rcases transmit_cases now m.sender with hnone | ⟨pkt, -, -, hsent⟩
      · rw [hnone]
        exact ⟨rfl, rfl, rfl⟩
      · rw [hsent]
        refine ⟨rfl, ?_, sendNext_lastpacketsSentCount now m.sender pkt⟩
        simp only [sendNext, advance_sendingStack, length_stackSetPkt]
    obtain ⟨hwait, hlen, hcount⟩ := hkeep
    refine ⟨⟨hlen.trans h.length_eq, Or.inl ⟨Or.inr hwait, hcount.trans_le hle⟩⟩, ?_⟩
    simp only [hcount, expirations, ite_self, Nat.add_zero]
  · exact he.elim
  · have hle := hrunning (by rw [hpc]; decide)
    rcases checkForRT_cases clock m.sender with ⟨runner, hfound, hc⟩ | ⟨hnone, hc⟩
    · have hexpire : (m.sender.expire runner).lastpacketsSentCount =
          m.sender.lastpacketsSentCount + if n = 1 then 1 else 0 := by
        rw [Sender.expire, h.length_eq]
        split <;> rfl
      rw [Option.mem_def] at hfound
      simp only [wakeUp, hc, expirations, hfound, if_true, Option.isSome_some]
      refine ⟨unheard_endIteration hn h.length_eq ?_, ?_⟩
      · rw [hexpire]
        split <;> omega
      · rw [endIteration_lastpacketsSentCount, hexpire]
    · simp only [wakeUp, hc, expirations, hnone, Bool.false_eq_true, if_false,
        Option.isSome_none, ite_self, Nat.add_zero]
      split
      · exact ⟨h, rfl⟩
      · exact ⟨unheard_endIteration hn h.length_eq (by omega),
          endIteration_lastpacketsSentCount _ _⟩
  · exact he.elim

/-- **Without replies the sender gives up on the last packet only**, at its sixth timeout. With more
packets in its stack it goes on for good. -/
theorem gives_up_iff {es : List Main.Event} (hne : m.sender.sendingStack ≠ [])
    (hpc : m.sender.pc = .top ∨ m.sender.pc = .wait) (hcount : m.sender.lastpacketsSentCount ≤ 5)
    (hes : ∀ e ∈ es, e.Unanswered) (hs : exec Main.step m es = some m') :
    m'.sender.sendingStack.length = m.sender.sendingStack.length ∧
      (m'.sender.pc = .success ↔ m.sender.sendingStack.length = 1 ∧
        m.sender.lastpacketsSentCount + total Main.step expirations m es = 6) := by
  have hn := List.length_pos_of_ne_nil hne
  have hstart : Unheard m.sender.sendingStack.length m.sender :=
    ⟨rfl, Or.inl ⟨hpc, hcount⟩⟩
  have halong : Along Main.step (fun _ e _ => e.Unanswered) m es := Along.of_forall hes
  have hstep : ∀ (t : Main) (e : Main.Event) (t' : Main),
      Unheard m.sender.sendingStack.length t.sender → e.Unanswered → t.step e = some t' →
      Unheard m.sender.sendingStack.length t'.sender ∧ t'.sender.lastpacketsSentCount =
        t.sender.lastpacketsSentCount +
          if m.sender.sendingStack.length = 1 then expirations t e else 0 :=
    fun _ _ _ h he hs => h.step hn he hs
  have hend : Unheard m.sender.sendingStack.length m'.sender :=
    exec_inv (I := fun t => Unheard m.sender.sendingStack.length t.sender)
      (fun t e t' h he hs => (hstep t e t' h he hs).1) hstart halong hs
  have htotal : m'.sender.lastpacketsSentCount = m.sender.lastpacketsSentCount +
      total Main.step (fun t e => if m.sender.sendingStack.length = 1 then expirations t e else 0)
        m es :=
    total_eq (I := fun t => Unheard m.sender.sendingStack.length t.sender)
      (V := fun t => t.sender.lastpacketsSentCount)
      (fun t e t' h he hs => (hstep t e t' h he hs).1)
      (fun t e t' h he hs => (hstep t e t' h he hs).2) hstart halong hs
  refine ⟨hend.length_eq, ?_⟩
  by_cases hone : m.sender.sendingStack.length = 1
  · simp only [hone, if_true] at htotal
    rw [← htotal]
    rcases hend.place with ⟨hrun, hle⟩ | ⟨hdone, h6⟩
    · refine ⟨fun hc => ?_, fun hc => by omega⟩
      rcases hrun with hrun | hrun <;> rw [hrun] at hc <;> exact absurd hc (by simp)
    · exact ⟨fun _ => ⟨hone, h6⟩, fun _ => hdone⟩
  · simp only [if_neg hone] at htotal
    have hzero : total Main.step (fun _ _ => 0) m es ≤ 0 * es.countP fun _ => false :=
      total_le_countP (fun _ _ => Nat.zero_le _) m es
    refine ⟨fun hc => ?_, fun hc => absurd hc.1 hone⟩
    rcases hend.place with ⟨hrun, hle⟩ | ⟨hdone, h6⟩
    · rcases hrun with hrun | hrun <;> rw [hrun] at hc <;> exact absurd hc (by simp)
    · omega

end Unanswered

set_option maxRecDepth 8000 in
open Zlib.Standard in
/-- An empty file: the terminating packet alone, sent six times. -/
theorem gives_up_empty :
    ∃ m', exec Main.step (Main.start [] cleared)
      [.transmit 1, .idle fun _ => 6, .transmit 6, .idle fun _ => 11, .transmit 11,
        .idle fun _ => 16, .transmit 16, .idle fun _ => 21, .transmit 21, .idle fun _ => 26,
        .transmit 26, .idle fun _ => 31] = some m' ∧ m'.sender.pc = .success := by
  obtain ⟨m', hm⟩ := Option.isSome_iff_exists.mp
    (by decide +kernel : (exec Main.step (Main.start [] cleared)
      [.transmit 1, .idle fun _ => 6, .transmit 6, .idle fun _ => 11, .transmit 11,
        .idle fun _ => 16, .transmit 16, .idle fun _ => 21, .transmit 21, .idle fun _ => 26,
        .transmit 26, .idle fun _ => 31]).isSome)
  refine ⟨m', hm, (gives_up_iff (by decide) (by decide) (by decide) ?_ hm).2.mpr
    (by decide +kernel)⟩
  simp [Main.Event.Unanswered]

/-! ## Equal ACKs -/

/-- The list ends in exactly `n` times `k`. -/
def EndsIn {α : Type*} (l : List α) (n : ℕ) (k : α) : Prop :=
  ∃ pre, l = pre ++ List.replicate n k ∧ pre.getLast? ≠ some k

theorem EndsIn.snoc {α : Type*} {l : List α} {n : ℕ} {k : α} (h : EndsIn l n k) :
    EndsIn (l ++ [k]) (n + 1) k := by
  obtain ⟨pre, rfl, hpre⟩ := h
  exact ⟨pre, by rw [List.replicate_succ', List.append_assoc], hpre⟩

theorem EndsIn.getLast? {α : Type*} {l : List α} {n : ℕ} {k : α} (h : EndsIn l (n + 1) k) :
    l.getLast? = some k := by
  obtain ⟨pre, rfl, -⟩ := h
  rw [List.replicate_succ', ← List.append_assoc, List.getLast?_concat]

/-- A list ends in one number of equal entries only. -/
theorem EndsIn.unique {α : Type*} {l : List α} {n n' : ℕ} {k : α} (h : EndsIn l n k)
    (h' : EndsIn l n' k) : n = n' := by
  induction n generalizing l n' with
  | zero =>
    obtain ⟨pre, rfl, hpre⟩ := h
    cases n' with
    | zero => rfl
    | succ n' => exact absurd (by simpa using h'.getLast?) hpre
  | succ n ih =>
    cases n' with
    | zero =>
      obtain ⟨pre, rfl, hpre⟩ := h'
      exact absurd (by simpa using h.getLast?) hpre
    | succ n' =>
      obtain ⟨pre, rfl, hpre⟩ := h
      obtain ⟨pre', heq, hpre'⟩ := h'
      rw [List.replicate_succ', List.replicate_succ', ← List.append_assoc, ← List.append_assoc]
        at heq
      rw [ih (l := pre ++ List.replicate n k) ⟨pre, rfl, hpre⟩
        ⟨pre', List.append_cancel_right heq, hpre'⟩]

/-- `lastSeqnumAckedCounter` counts the repetitions of the last ACK. -/
def Counts (history : List UInt8) (s : Sender) : Prop :=
  EndsIn history (s.lastSeqnumAckedCounter + 1) s.lastSeqnumAcked

theorem Counts.congr {history : List UInt8} {s s' : Sender} (h : Counts history s)
    (hlast : s'.lastSeqnumAcked = s.lastSeqnumAcked)
    (hcounter : s'.lastSeqnumAckedCounter = s.lastSeqnumAckedCounter) : Counts history s' := by
  unfold Counts
  rw [hlast, hcounter]
  exact h

@[simp] theorem advance_lastSeqnumAckedCounter (s : Sender) :
    s.advance.lastSeqnumAckedCounter = s.lastSeqnumAckedCounter := by
  unfold Sender.advance
  split <;> rfl

/-- An ACK is counted. -/
theorem Counts.countAck {history : List UInt8} {s : Sender} (h : Counts history s)
    (packet : Pkt) : Counts (history ++ [packet.seqnum]) (Trtp.countAck s packet) := by
  unfold Counts Trtp.countAck
  by_cases heq : s.lastSeqnumAcked = packet.seqnum
  · simp only [if_pos heq]
    rw [← heq]
    split <;> exact EndsIn.snoc h
  · simp only [if_neg heq]
    refine ⟨history, rfl, ?_⟩
    rw [EndsIn.getLast? h]
    exact fun hc => heq (Option.some.inj hc)

/-- The third equal ACK, and no other, asks for the packet it names. -/
theorem Counts.third {history : List UInt8} {s : Sender} (h : Counts history s) (packet : Pkt) :
    (EndsIn (history ++ [packet.seqnum]) 3 packet.seqnum →
      (Trtp.countAck s packet).seqnumToSend = packet.seqnum ∧
        (Trtp.countAck s packet).hasFastRetransmitted = true) ∧
    (¬ EndsIn (history ++ [packet.seqnum]) 3 packet.seqnum →
      (Trtp.countAck s packet).seqnumToSend = s.seqnumToSend ∧
        (Trtp.countAck s packet).hasFastRetransmitted = s.hasFastRetransmitted) := by
  have hnext := h.countAck packet
  unfold Counts at hnext
  unfold Trtp.countAck at hnext ⊢
  by_cases heq : s.lastSeqnumAcked = packet.seqnum
  · simp only [if_pos heq] at hnext ⊢
    by_cases h2 : s.lastSeqnumAckedCounter + 1 = 2
    · simp only [if_pos h2] at hnext ⊢
      rw [h2, heq] at hnext
      exact ⟨fun _ => ⟨heq, trivial⟩, fun hc => absurd hnext hc⟩
    · simp only [if_neg h2] at hnext ⊢
      rw [heq] at hnext
      refine ⟨fun hc => absurd (hnext.unique hc) (by omega), fun _ => ⟨trivial, trivial⟩⟩
  · simp only [if_neg heq] at hnext ⊢
    exact ⟨fun hc => absurd (hnext.unique hc) (by omega), fun _ => ⟨trivial, trivial⟩⟩

section EqualAcks

variable [Zlib] {m m' : Main} {e : Main.Event}

/-- The number of a valid ACK. -/
def ackNumber : Option (List UInt8) → Buffer → Option UInt8
  | some datagram, junk =>
    if (replyOf junk datagram).1 = .pktOk ∧ (replyOf junk datagram).2.type = .ack then
      some (replyOf junk datagram).2.seqnum
    else none
  | none, _ => none

/-- The numbers that were acknowledged in the call, the latest at the end; a call starts as if 0
had been. -/
def heard (history : List UInt8) : Main.Event → List UInt8
  | .read datagram junk => history ++ (ackNumber datagram junk).toList
  | .transmit _ | .idle _ => history
  | .retry _ => [0]

theorem processResponse_of_ack {s : Sender} {datagram : List UInt8} {junk : Buffer} {packet : Pkt}
    (hrep : replyOf junk datagram = (.pktOk, packet)) (htype : packet.type = .ack) :
    processResponse s (some datagram) junk = processAck s packet := by
  have hlen := le_len_of_ok hrep
  have hread : 0 < min 12 datagram.length := by omega
  unfold replyOf at hrep
  simp only [processResponse, if_pos hread, hrep, if_pos htype]

/-- Anything else that is read leaves the count. -/
theorem Counts.respond {history : List UInt8} {s : Sender} (h : Counts history s)
    (datagram : Option (List UInt8)) (junk : Buffer) :
    Counts (heard history (.read datagram junk)) (Trtp.respond s datagram junk) := by
  cases datagram with
  | none =>
    rw [heard, ackNumber, Option.toList_none, List.append_nil]
    simp only [Trtp.respond, processResponse]
    split
    · simp only [show (-3 : ℤ) ≠ 1 by decide, show (-3 : ℤ) ≠ -2 by decide, if_true, if_false]
      obtain ⟨pc, hpc⟩ := endIteration_eq s true
      rw [hpc]
      exact h
    · exact h
  | some datagram =>
    obtain ⟨pc, hpc⟩ := endIteration_eq (processResponse s (some datagram) junk).1
      (decide ((processResponse s (some datagram) junk).2 = 1))
    rw [respond_some, hpc]
    by_cases hack : (replyOf junk datagram).1 = .pktOk ∧ (replyOf junk datagram).2.type = .ack
    · rw [heard, ackNumber, if_pos hack, Option.toList_some,
        processResponse_of_ack (Prod.ext hack.1 rfl) hack.2, processAck_eq]
      exact h.countAck _
    · rw [heard, ackNumber, if_neg hack, Option.toList_none, List.append_nil]
      rcases processResponse_cases s datagram junk with
        ⟨packet, hrep, htype, -⟩ | ⟨packet, -, -, hres⟩ | ⟨code, -, -, -, hres⟩
      · exact absurd (by rw [hrep]; exact ⟨rfl, htype⟩) hack
      · rw [hres, processNack_eq]
        exact h
      · rw [hres]
        exact h

/-- **The step**: an ACK is counted, a call starts again, and nothing else changes the count. -/
theorem Counts.step {history : List UInt8} (h : Counts history m.sender)
    (hs : m.step e = some m') : Counts (heard history e) m'.sender := by
  rcases Main.step_cases hs with ⟨now, rfl, -, rfl⟩ | ⟨datagram, junk, rfl, -, rfl⟩ |
    ⟨clock, rfl, -, rfl⟩ | ⟨buf, rfl, -, -, rfl⟩
  · rcases transmit_cases now m.sender with hnone | ⟨pkt, -, -, hsent⟩
    · rw [hnone]
      exact h
    · rw [hsent]
      refine h.congr (sendNext_lastSeqnumAcked now m.sender pkt) ?_
      simp only [sendNext, advance_lastSeqnumAckedCounter]
  · exact h.respond datagram junk
  · obtain ⟨seqnumToSend, hasRTed, count, pc, hw⟩ := wakeUp_eq clock m.sender
    rw [hw]
    exact h
  · refine ⟨[], ?_, by simp⟩
    unfold Sender.enter loopHead
    split <;> rfl

/-- **The run**, by induction on the events. -/
theorem counts_exec {history : List UInt8} {es : List Main.Event} (h : Counts history m.sender)
    (hs : exec Main.step m es = some m') : Counts (es.foldl heard history) m'.sender := by
  induction es generalizing history m with
  | nil =>
    rw [exec, Option.some.injEq] at hs
    exact hs ▸ h
  | cons e es ih =>
    obtain ⟨m1, hstep, hs'⟩ := exec_cons_inv hs
    exact ih (h.step hstep) hs'

/-- **Fast retransmit.** A valid ACK asks for the packet it names exactly when its number ends the
list of those acknowledged in this call for the third time in a row. -/
theorem fast_retransmit_iff (chunks : List Chunk) (buf : Buffer) {es : List Main.Event}
    (hrun : exec Main.step (Main.start chunks buf) es = some m) {datagram : List UInt8}
    {junk : Buffer} {packet : Pkt} (hs : m.step (.read (some datagram) junk) = some m')
    (hrep : replyOf junk datagram = (.pktOk, packet)) (htype : packet.type = .ack) :
    (EndsIn (es.foldl heard [0] ++ [packet.seqnum]) 3 packet.seqnum →
      m'.sender.seqnumToSend = packet.seqnum ∧ m'.sender.hasFastRetransmitted = true) ∧
    (¬ EndsIn (es.foldl heard [0] ++ [packet.seqnum]) 3 packet.seqnum →
      m'.sender.seqnumToSend = m.sender.seqnumToSend ∧
        m'.sender.hasFastRetransmitted = m.sender.hasFastRetransmitted) := by
  have hcounts : Counts (es.foldl heard [0]) m.sender := by
    refine counts_exec (m := Main.start chunks buf) ?_ hrun
    unfold Main.start
    rw [enter_eq (boot_nonempty chunks)]
    exact ⟨[], rfl, by simp⟩
  have hthird := hcounts.third packet
  obtain ⟨-, hs⟩ := Option.ite_none_right_eq_some.mp hs
  obtain ⟨pc, hpc⟩ := endIteration_eq (processResponse m.sender (some datagram) junk).1
    (decide ((processResponse m.sender (some datagram) junk).2 = 1))
  rw [← Option.some.inj hs, respond_some, hpc, processResponse_of_ack hrep htype, processAck_eq]
  exact hthird

end EqualAcks

set_option maxRecDepth 8000 in
open Zlib.Standard in
/-- The first two ACKs of a call carry number 0: the second one asks for packet 0. -/
theorem fast_retransmit_zero :
    ∃ m m', exec Main.step (Main.start byteFile cleared)
      [.transmit 1, .read (some (wire (replyPkt 31 .ack 1 0))) cleared, .transmit 1] = some m ∧
      m.step (.read (some (wire (replyPkt 31 .ack 1 0))) cleared) = some m' ∧
      m'.sender.seqnumToSend = 0 ∧ m'.sender.hasFastRetransmitted = true := by
  obtain ⟨m', hm'⟩ := Option.isSome_iff_exists.mp
    (by decide +kernel : ((exec Main.step (Main.start byteFile cleared)
      [.transmit 1, .read (some (wire (replyPkt 31 .ack 1 0))) cleared, .transmit 1]).bind fun m =>
        m.step (.read (some (wire (replyPkt 31 .ack 1 0))) cleared)).isSome)
  obtain ⟨m, hm, hstep⟩ := Option.bind_eq_some_iff.mp hm'
  obtain ⟨packet, hrep, htype, hseq, -⟩ :=
    replyOf_wire cleared .ack 31 1 0 (by decide)
  obtain ⟨hask, -⟩ := fast_retransmit_iff byteFile cleared hm hstep hrep htype
  rw [hseq] at hask
  exact ⟨m, m', hm, hstep, hask ⟨[], by decide +kernel, by simp⟩⟩

end Trtp
