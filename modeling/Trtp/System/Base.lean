import Trtp.Lib.Run
import Trtp.Sender.Inv
import Trtp.System.Step

/-!
# The base of the sender's window (`read_write_loop_sender.c:198-315`)

`isInRange` measures from `lastSeqnumAcked`, which should be the number of the first packet of the
stack. `process_response` moves `lastSeqnumAcked` to the number of any ACK; only the removal from
the stack stands behind the test. An ACK that comes late is refused by the test and still moves
`lastSeqnumAcked` back.

* `Base chunks a s`: the base is the first packet, and only packets at most 30 behind it were sent.
* `base_kept`: **in a run where every ACK that is read is let through by the test, or carries the
  number of the first packet, the base stays on the first packet**; it advances with the removals,
  and a retransmission that was asked for is the next thing sent.
* `base_lost`: an ACK read after a later one.

Only the sender counts here: replies may come in any order.
-/

namespace Trtp

open Trtp.Run

/-! ## The sender by itself -/

/-- The stack starts at `lastSeqnumAcked`; what was sent lies within the window behind it, and the
terminating packet only goes out as the first of the stack. -/
structure Base (chunks : List Chunk) (a : ℕ) (s : Sender) : Prop where
  holds : Holds (contents chunks) (chunks.length + 1) a s.sendingStack
  base_eq : s.sendingStack ≠ [] → s.lastSeqnumAcked = UInt8.ofNat a
  sent_le : ∀ i, SentAt s.sendingStack i → i ≤ 30
  last_first : ∀ i, SentAt s.sendingStack i → i + 1 = s.sendingStack.length → i = 0

variable {chunks : List Chunk} {a : ℕ} {s : Sender}

theorem Base.congr {s' : Sender} (h : Base chunks a s) (hstack : s'.sendingStack = s.sendingStack)
    (hlast : s'.lastSeqnumAcked = s.lastSeqnumAcked) : Base chunks a s' where
  holds := hstack ▸ h.holds
  base_eq := by
    rw [hstack, hlast]
    exact h.base_eq
  sent_le := hstack ▸ h.sent_le
  last_first := hstack ▸ h.last_first

/-- The first packet of the stack. -/
theorem Base.first (h : Base chunks a s) {first : Node} (hf : first ∈ s.sendingStack.head?) :
    first.seqnum = UInt8.ofNat a ∧ s.lastSeqnumAcked = UInt8.ofNat a := by
  have hget : s.sendingStack[0]? = some first := by
    rw [← List.head?_eq_getElem?]
    exact hf
  refine ⟨h.holds.numbered.getElem? hget, h.base_eq fun hnil => ?_⟩
  rw [hnil] at hf
  exact absurd hf (by simp)

/-- A packet without payload is the last of the stack. -/
theorem Base.length_eq_zero (h : Base chunks a s) {i : ℕ} {pkt : Pkt}
    (hi : i < s.sendingStack.length) (hdata : IsData (contents chunks) (a + i) pkt) :
    pkt.length = 0 ↔ i + 1 = s.sendingStack.length := by
  have hlen := h.holds.length_eq
  rw [hdata.getElem?_nil_iff]
  omega

theorem base_start (chunks : List Chunk) (buf : Buffer) :
    Base chunks 0 (Sys.start chunks buf).sender := by
  obtain ⟨hholds, hfresh⟩ := readFile_holds chunks
  have hnot := not_sentAt_of_fresh hfresh
  rw [start_sender]
  exact ⟨hholds, fun _ => rfl, fun i hi => absurd hi (hnot i), fun i hi => absurd hi (hnot i)⟩

/-- What an ACK leaves when it passed the test, or carries the number of the first packet. -/
theorem Base.processAck_keeps {packet : Pkt} (h : Base chunks a s)
    (hstep : acceptsAck s.totalPacketsToSend s.sendingStack packet.seqnum ∨
      packet.seqnum = UInt8.ofNat a) :
    ∃ k ≤ s.sendingStack.length, (processAck s packet).1.sendingStack = s.sendingStack.drop k ∧
      Base chunks (a + k) (processAck s packet).1 := by
  have hlast : (processAck s packet).1.lastSeqnumAcked = packet.seqnum := by
    rw [processAck_eq]
    obtain ⟨counter, hc | ⟨-, hc⟩⟩ := countAck_eq s packet <;> rw [hc]
  have hstack : (processAck s packet).1.sendingStack =
      removeAcked s.totalPacketsToSend s.sendingStack packet.seqnum := by rw [processAck_eq]
  obtain ⟨k, hk, hdrop, hholds, hnone, hmin⟩ :=
    h.holds.removeAcked s.totalPacketsToSend packet.seqnum
  rw [hdrop] at hstack
  have hlen : (s.sendingStack.drop k).length = s.sendingStack.length - k := List.length_drop
  refine ⟨k, hk, hstack, hstack ▸ hholds, fun hne => ?_, fun i hi => ?_, fun i hi hend => ?_⟩
  · rw [hstack] at hne
    have hpos := List.length_pos_of_ne_nil hne
    rw [hlast]
    by_cases hacc : acceptsAck s.totalPacketsToSend s.sendingStack packet.seqnum
    · have hoff : k = offset (UInt8.ofNat a) packet.seqnum := by
        have := hmin hacc
        omega
      rw [hoff, ofNat_add_offset]
    · rw [hstep.resolve_left hacc, hnone.resolve_right hacc, Nat.add_zero]
  · rw [hstack, sentAt_drop] at hi
    have := h.sent_le _ hi
    omega
  · rw [hstack] at hi hend
    rw [sentAt_drop] at hi
    have hlt := hi.lt
    have := h.last_first _ hi (by omega)
    omega

/-- The third equal ACK asks for the packet with its number. -/
theorem countAck_third {packet : Pkt} (h1 : s.lastSeqnumAckedCounter = 1)
    (h2 : (countAck s packet).lastSeqnumAckedCounter = 2) :
    (countAck s packet).seqnumToSend = packet.seqnum ∧ (countAck s packet).flagged = true := by
  unfold countAck at h2 ⊢
  by_cases heq : s.lastSeqnumAcked = packet.seqnum
  · simp only [if_pos heq, h1]
    exact ⟨heq, by simp [Sender.flagged]⟩
  · simp only [if_neg heq] at h2
    exact absurd h2 (by decide)

section Parts

variable [Zlib]

/-- **A transmission stays within the window behind the first packet.** -/
theorem Base.transmit_keeps {now : UInt32} (h : Base chunks a s) (hnow : now ≠ 0) :
    Base chunks a (transmit now s).1 := by
  rcases transmit_cases now s with hnone | ⟨pkt, hmay, hget, hsent⟩
  · rw [hnone]
    exact h.congr rfl rfl
  obtain ⟨node, hnode, -, hdata⟩ := h.holds.get hget
  obtain ⟨hlt, -⟩ := List.getElem?_eq_some_iff.mp hnode
  obtain ⟨-, -, hholds, hlen, hsentAt⟩ := sendNext_sent h.holds hnow hget
  have hlast := h.base_eq (List.ne_nil_of_length_pos (by omega))
  have hrange : offset (UInt8.ofNat a) s.seqnumToSend < 31 := by
    rw [← hlast]
    exact (inWindow_iff _ _).mp hmay.inRange
  rw [hsent]
  refine ⟨hholds, fun _ => by simpa using hlast, fun i hi => ?_, fun i hi hend => ?_⟩
  · rcases (hsentAt i).mp hi with rfl | hi
    · omega
    · exact h.sent_le i hi
  · rw [show List.length _ = _ from hlen] at hend
    rcases (hsentAt i).mp hi with rfl | hi
    · -- the terminating packet passed the test that holds it back
      by_contra hpos
      refine hmay.notHeld ⟨by omega, fun heq => ?_, pkt, hget,
        (h.length_eq_zero hlt hdata).mpr hend⟩
      rw [heq, hlast, offset_self] at hpos
      exact hpos rfl
    · exact h.last_first i hi hend

/-- The ACK condition on a datagram: what it decodes to is let through by the test, or carries
the number of the first packet. -/
def AckOk (s : Sender) (datagram : List UInt8) (junk : Buffer) : Prop :=
  (replyOf junk datagram).1 = .pktOk → (replyOf junk datagram).2.type = .ack →
    acceptsAck s.totalPacketsToSend s.sendingStack (replyOf junk datagram).2.seqnum ∨
      ∃ first ∈ s.sendingStack.head?, (replyOf junk datagram).2.seqnum = first.seqnum

instance (s : Sender) (datagram : List UInt8) (junk : Buffer) :
    Decidable (AckOk s datagram junk) :=
  inferInstanceAs (Decidable (_ → _ → _))

theorem Base.respond_keeps {datagram : List UInt8} {junk : Buffer} (h : Base chunks a s)
    (hok : AckOk s datagram junk) :
    ∃ k ≤ s.sendingStack.length,
      (respond s (some datagram) junk).sendingStack = s.sendingStack.drop k ∧
      Base chunks (a + k) (respond s (some datagram) junk) := by
  rw [respond_some]
  obtain ⟨pc, hpc⟩ := endIteration_eq (processResponse s (some datagram) junk).1
    (decide ((processResponse s (some datagram) junk).2 = 1))
  rcases processResponse_cases s datagram junk with
    ⟨packet, hrep, htype, hres⟩ | ⟨packet, -, -, hres⟩ | ⟨code, -, -, -, hres⟩
  · have hstep : acceptsAck s.totalPacketsToSend s.sendingStack packet.seqnum ∨
        packet.seqnum = UInt8.ofNat a := by
      rw [AckOk, hrep] at hok
      rcases hok rfl htype with hacc | ⟨first, hfirst, heq⟩
      · exact Or.inl hacc
      · exact Or.inr (heq.trans (h.first hfirst).1)
    obtain ⟨k, hk, hstack, hbase⟩ := h.processAck_keeps hstep
    rw [hres] at hpc
    rw [hres, hpc]
    exact ⟨k, hk, hstack, hbase.congr rfl rfl⟩
  · rw [hres, processNack_eq] at hpc
    rw [hres, processNack_eq, hpc]
    exact ⟨0, Nat.zero_le _, rfl, h.congr rfl rfl⟩
  · rw [hres] at hpc
    rw [hres, hpc]
    exact ⟨0, Nat.zero_le _, rfl, h.congr rfl rfl⟩

/-- **What is asked for gets through**: the first packet, or another one within the window that is
not the terminating one. -/
theorem Base.sends (h : Base chunks a s) {i : ℕ} {node : Node}
    (hnode : s.sendingStack[i]? = some node) (hle : i ≤ 30)
    (hlast : i + 1 = s.sendingStack.length → i = 0) (hseq : s.seqnumToSend = node.seqnum)
    (hwin : s.receiverWindowSize ≠ 0 ∨ s.flagged = true) (now : UInt32) :
    (transmit now s).2 = some (wire (stampPkt now node.pkt)) := by
  obtain ⟨hlt, -⟩ := List.getElem?_eq_some_iff.mp hnode
  have hbase := h.base_eq (List.ne_nil_of_length_pos (by omega))
  have hdata := h.holds.data i node hnode
  have hget := h.holds.get_of_getElem? hnode (by omega)
  rw [← hseq] at hget
  have hnumber : s.seqnumToSend = UInt8.ofNat (a + i) :=
    hseq.trans (h.holds.numbered.getElem? hnode)
  have hmay : s.MaySend := by
    refine ⟨?_, ?_, hwin⟩
    · rintro ⟨-, hne, pkt, hpkt, hzero⟩
      rw [hget, Option.mem_some_iff] at hpkt
      subst hpkt
      rw [hnumber, hbase, hlast ((h.length_eq_zero hlt hdata).mp hzero)] at hne
      exact hne rfl
    · rw [isInRange, inWindow_iff, hbase, hnumber, offset_ofNat_of_le (by omega) (by omega)]
      omega
  rw [transmit_of_maySend hmay hget, sendNext_eq (isData_stampPkt hdata now).sendable]

/-- **A retransmission of a sent packet gets through**, once its flag is set. -/
theorem Base.resend (h : Base chunks a s) {i : ℕ} {node : Node}
    (hnode : s.sendingStack[i]? = some node) (hsent : i = 0 ∨ SentAt s.sendingStack i)
    (hseq : s.seqnumToSend = node.seqnum) (hflag : s.flagged = true) (now : UInt32) :
    (transmit now s).2 = some (wire (stampPkt now node.pkt)) := by
  refine h.sends hnode ?_ ?_ hseq (Or.inr hflag) now
  · rcases hsent with rfl | hsent
    · omega
    · exact h.sent_le i hsent
  · exact fun hend => hsent.elim id fun hs => h.last_first i hs hend

end Parts

/-! ## Runs -/

variable {s s' : Sys} {e : Event}

/-- The sender's part of the system has its base. -/
structure SysBase (chunks : List Chunk) (s : Sys) : Prop where
  total_eq : s.total = chunks.length + 1
  base : Base chunks s.acked s.sender

/-- The sender's base after it removed `k` packets. -/
theorem SysBase.of_drop {k : ℕ} (hb : SysBase chunks s) (htotal : s'.total = s.total)
    (hk : k ≤ s.sender.sendingStack.length)
    (hlen : s'.sender.sendingStack.length = s.sender.sendingStack.length - k)
    (hkeep : Base chunks (s.acked + k) s'.sender) : SysBase chunks s' := by
  have hsum := hb.base.holds.length_eq
  have htotal' := hb.total_eq
  have hacked : s'.acked = s.acked + k := by
    unfold Sys.acked at hsum ⊢
    rw [htotal, hlen]
    omega
  exact ⟨htotal.trans htotal', hacked ▸ hkeep⟩

theorem sysBase_start (chunks : List Chunk) (buf : Buffer) :
    SysBase chunks (Sys.start chunks buf) :=
  ⟨rfl, (acked_start chunks buf).symm ▸ base_start chunks buf⟩

section Runs

variable [Zlib]

/-- An ACK that is read is let through by the test, or carries the number of the first packet. -/
def AckInStep (s : Sys) : Event → Prop
  | .reply i junk => ∀ frame ∈ s.replies[i]?, AckOk s.sender frame.2 junk
  | _ => True

instance (s : Sys) : (e : Event) → Decidable (AckInStep s e)
  | .reply i junk => inferInstanceAs (Decidable (∀ frame ∈ s.replies[i]?, AckOk _ frame.2 junk))
  | .transmit _ | .damagedReply _ _ _ | .idle _ | .deliver _ | .damagedData _ _ | .loseData _
  | .dupData _ | .loseReply _ | .dupReply _ => isTrue trivial

/-- The packet a step asks to be sent again: the one whose time is over, or the first of the stack
at the third equal ACK. -/
def Chosen (s : Sys) (s' : Sys) (node : Node) : Event → Prop
  | .idle clock => findExpired clock 0 s.sender.sendingStack = some node
  | .reply _ _ =>
    s.sender.lastSeqnumAckedCounter = 1 ∧ s'.sender.lastSeqnumAckedCounter = 2 ∧
      s'.sender.sendingStack.head? = some node
  | _ => False

/-- The base is on the first packet behind a step. -/
structure BaseKept (s : Sys) (e : Event) (s' : Sys) : Prop where
  base_eq : ∀ first ∈ s'.sender.sendingStack.head?,
    s'.sender.lastSeqnumAcked = first.seqnum ∧ isInRange s'.sender.lastSeqnumAcked first.seqnum
  forward : s'.sender.sendingStack ≠ [] →
    s'.sender.lastSeqnumAcked = s.sender.lastSeqnumAcked +
      UInt8.ofNat (s.sender.sendingStack.length - s'.sender.sendingStack.length)
  resent : ∀ node, Chosen s s' node e → s'.sender.pc = .top →
    ∀ now, (transmit now s'.sender).2 = some (wire (stampPkt now node.pkt))

/-- Both ends of a step give the base and its advance. -/
theorem baseKept_of (hb : Base chunks s.acked s.sender) (hb' : Base chunks s'.acked s'.sender)
    (hlen : s'.sender.sendingStack.length ≤ s.sender.sendingStack.length)
    (hresent : ∀ node, Chosen s s' node e → s'.sender.pc = .top →
      ∀ now, (transmit now s'.sender).2 = some (wire (stampPkt now node.pkt))) :
    BaseKept s e s' := by
  refine ⟨fun first hf => ?_, fun hne => ?_, hresent⟩
  · obtain ⟨hseq, hlast⟩ := hb'.first hf
    refine ⟨hlast.trans hseq.symm, ?_⟩
    rw [isInRange, inWindow_iff, hlast, hseq, offset_self]
    omega
  · have hpos := List.length_pos_of_ne_nil hne
    have hle := hb.holds.length_eq
    have hle' := hb'.holds.length_eq
    rw [hb'.base_eq hne, hb.base_eq (List.ne_nil_of_length_pos (by omega)), ← UInt8.ofNat_add]
    congr 1
    omega

/-- A step that leaves the sender as it is. -/
theorem SysBase.quiet (hb : SysBase chunks s) (htotal : s'.total = s.total)
    (hsender : s'.sender = s.sender) (hnot : ∀ node, ¬ Chosen s s' node e) :
    SysBase chunks s' ∧ BaseKept s e s' := by
  have hb' : SysBase chunks s' :=
    hb.of_drop htotal (Nat.zero_le _) (by rw [hsender]; rfl) (hsender ▸ hb.base)
  exact ⟨hb', baseKept_of hb.base hb'.base (by rw [hsender]) fun node hc => absurd hc (hnot node)⟩

theorem SysBase.transmit {now : UInt32} (hb : SysBase chunks s)
    (hs : step s (.transmit now) = some s') :
    SysBase chunks s' ∧ BaseKept s (.transmit now) s' := by
  obtain ⟨-, hnow, heq⟩ := step_transmit hs
  have hsender : s'.sender = (Trtp.transmit now s.sender).1 := by rw [heq]
  have hkeep := hb.base.transmit_keeps hnow
  rw [← hsender] at hkeep
  have hlen : s'.sender.sendingStack.length = s.sender.sendingStack.length := by
    have h0 := hb.base.holds.length_eq
    have h1 := hkeep.holds.length_eq
    omega
  have hb' := hb.of_drop (by rw [heq]) (Nat.zero_le _) hlen hkeep
  exact ⟨hb', baseKept_of hb.base hb'.base hlen.le fun node hc => absurd hc id⟩

/-- A datagram was read. -/
theorem SysBase.respond {datagram : List UInt8} {junk : Buffer} (hb : SysBase chunks s)
    (hok : AckOk s.sender datagram junk) (htotal : s'.total = s.total)
    (hsender : s'.sender = respond s.sender (some datagram) junk) :
    SysBase chunks s' ∧ s'.sender.sendingStack.length ≤ s.sender.sendingStack.length := by
  obtain ⟨k, hk, hstack, hkeep⟩ := hb.base.respond_keeps hok
  have hlen : s'.sender.sendingStack.length = s.sender.sendingStack.length - k := by
    rw [hsender, hstack, List.length_drop]
  exact ⟨hb.of_drop htotal hk hlen (hsender ▸ hkeep), by omega⟩

/-- The third equal ACK sets the flag and names the first packet. -/
theorem respond_third {t : Sender} {datagram : List UInt8} {junk : Buffer}
    (h1 : t.lastSeqnumAckedCounter = 1)
    (h2 : (respond t (some datagram) junk).lastSeqnumAckedCounter = 2) :
    (respond t (some datagram) junk).seqnumToSend =
        (respond t (some datagram) junk).lastSeqnumAcked ∧
      (respond t (some datagram) junk).flagged = true := by
  obtain ⟨pc, hpc⟩ := endIteration_eq (processResponse t (some datagram) junk).1
    (decide ((processResponse t (some datagram) junk).2 = 1))
  rw [← respond_some] at hpc
  rw [hpc] at h2 ⊢
  -- only an ACK counts
  rcases processResponse_cases t datagram junk with
    ⟨packet, -, -, hres⟩ | ⟨packet, -, -, hres⟩ | ⟨code, -, -, -, hres⟩
  · rw [hres, processAck_eq] at h2 ⊢
    obtain ⟨hseq, hflag⟩ := countAck_third h1 h2
    obtain ⟨counter, hc | ⟨-, hc⟩⟩ := countAck_eq t packet
    · exact ⟨hseq.trans (by rw [hc]), hflag⟩
    · exact ⟨hseq.trans (by rw [hc]), hflag⟩
  · rw [hres, processNack_eq] at h2
    simp only at h2
    omega
  · rw [hres] at h2
    simp only at h2
    omega

theorem SysBase.reply {i : ℕ} {junk : Buffer} (hb : SysBase chunks s)
    (hok : AckInStep s (.reply i junk)) (hs : step s (.reply i junk) = some s') :
    SysBase chunks s' ∧ BaseKept s (.reply i junk) s' := by
  obtain ⟨frame, hframe, -, heq⟩ := step_reply hs
  have hsender : s'.sender = Trtp.respond s.sender (some frame.2) junk := by rw [heq]
  obtain ⟨hb', hlen⟩ := hb.respond (hok frame hframe) (by rw [heq]) hsender
  refine ⟨hb', baseKept_of hb.base hb'.base hlen ?_⟩
  rintro node ⟨h1, h2, hhead⟩ - now
  have hget : s'.sender.sendingStack[0]? = some node := by
    rw [← List.head?_eq_getElem?]
    exact hhead
  obtain ⟨hseq, hlast⟩ := hb'.base.first hhead
  rw [hsender] at h2
  obtain ⟨hthird, hflag⟩ := respond_third h1 h2
  rw [← hsender] at hthird hflag
  exact hb'.base.resend hget (Or.inl rfl) (hthird.trans (hlast.trans hseq.symm)) hflag now

theorem SysBase.damagedReply {i : ℕ} {datagram : List UInt8} {junk : Buffer}
    (hb : SysBase chunks s) (hs : step s (.damagedReply i datagram junk) = some s') :
    SysBase chunks s' ∧ BaseKept s (.damagedReply i datagram junk) s' := by
  obtain ⟨-, hrej, heq⟩ := step_damagedReply hs
  have hok : AckOk s.sender datagram junk := fun hrep _ => absurd hrep hrej
  obtain ⟨hb', hlen⟩ := hb.respond hok (by rw [heq] : s'.total = s.total) (by rw [heq])
  exact ⟨hb', baseKept_of hb.base hb'.base hlen fun node hc => absurd hc id⟩

theorem SysBase.idle {clock : ℕ → ℤ} (hb : SysBase chunks s)
    (hs : step s (.idle clock) = some s') : SysBase chunks s' ∧ BaseKept s (.idle clock) s' := by
  obtain ⟨-, heq⟩ := step_idle hs
  have hsender : s'.sender = wakeUp clock s.sender := by rw [heq]
  obtain ⟨hstack, hlast⟩ := wakeUp_keeps clock s.sender
  rw [← hsender] at hstack hlast
  have hkeep := hb.base.congr hstack hlast
  have hb' := hb.of_drop (by rw [heq]) (Nat.zero_le _) (by rw [hstack]; rfl) hkeep
  refine ⟨hb', baseKept_of hb.base hb'.base (by rw [hstack]) fun node hfind _ now => ?_⟩
  have hfound : findExpired clock 0 s.sender.sendingStack = some node := hfind
  obtain ⟨i, hi, hts⟩ := findExpired_some hfound
  have hrun : s'.sender = endIteration (s.sender.expire node) false := by
    rw [hsender]
    simp only [wakeUp, checkForRT, hfound, if_true]
  obtain ⟨pc, hpc⟩ := endIteration_eq (s.sender.expire node) false
  rw [← hrun] at hpc
  refine hb'.base.resend (hstack ▸ hi) (Or.inr (hstack ▸ ⟨node, hi, hts⟩)) ?_ ?_ now
  · rw [hpc]
    rfl
  · rw [hpc]
    rfl

/-- **The step**, one case for each event. -/
theorem base_step (hb : SysBase chunks s) (hok : AckInStep s e) (hs : step s e = some s') :
    SysBase chunks s' ∧ BaseKept s e s' := by
  cases e with
  | transmit now => exact hb.transmit hs
  | reply i junk => exact hb.reply hok hs
  | damagedReply i datagram junk => exact hb.damagedReply hs
  | idle clock => exact hb.idle hs
  | deliver dangling =>
    obtain ⟨frame, rest, -, -, rfl⟩ := step_deliver hs
    exact hb.quiet rfl rfl fun node => id
  | damagedData dangling datagram =>
    obtain ⟨frame, rest, -, -, -, rfl⟩ := step_damagedData hs
    exact hb.quiet rfl rfl fun node => id
  | loseData i => exact hb.quiet (Option.some.inj hs ▸ rfl) (Option.some.inj hs ▸ rfl) fun _ => id
  | dupData i => exact hb.quiet (Option.some.inj hs ▸ rfl) (Option.some.inj hs ▸ rfl) fun _ => id
  | loseReply i => exact hb.quiet (Option.some.inj hs ▸ rfl) (Option.some.inj hs ▸ rfl) fun _ => id
  | dupReply i => exact hb.quiet (Option.some.inj hs ▸ rfl) (Option.some.inj hs ▸ rfl) fun _ => id

/-- **The base stays on the first packet**, in every run whose ACKs are let through by the test or
carry the number of the first packet. -/
theorem base_kept (chunks : List Chunk) (buf : Buffer) (es : List Event)
    (h : Along step (fun s e _ => AckInStep s e) (Sys.start chunks buf) es) :
    Along step BaseKept (Sys.start chunks buf) es :=
  have hstep : ∀ s e s', SysBase chunks s → AckInStep s e → step s e = some s' →
      SysBase chunks s' ∧ BaseKept s e s' := fun _ _ _ => base_step
  Along.of_inv (fun s e s' hb hok hs => (hstep s e s' hb hok hs).1)
    (fun s e s' hb hok hs => (hstep s e s' hb hok hs).2) (sysBase_start chunks buf) h

end Runs

/-- The first ACK, its duplicate and, behind a retransmission, the second, each in its turn. -/
def repeatedAck : List Event :=
  [.transmit 1, .deliver pktNew, .dupReply 0, .reply 0 cleared, .transmit 1, .deliver pktNew,
    .reply 0 cleared, .transmit 1, .idle fun _ => 10, .transmit 10, .reply 0 cleared]

set_option maxRecDepth 8000 in
open Zlib.Standard in
/-- The duplicate carries the number of the first packet, which is sent again from its timer. -/
theorem base_kept_repeated :
    ∃ s, exec step (Sys.start (fileOf 1) cleared) repeatedAck = some s ∧
      (s.sender.lastSeqnumAcked, s.data.map Prod.fst) = (2, [1]) ∧
      Along step BaseKept (Sys.start (fileOf 1) cleared) repeatedAck := by
  have hread : (exec step (Sys.start (fileOf 1) cleared) repeatedAck).map
      (fun s => (s.sender.lastSeqnumAcked, s.data.map Prod.fst)) = some (2, [1]) := by
    decide +kernel
  obtain ⟨s, hs, hend⟩ := Option.map_eq_some_iff.mp hread
  exact ⟨s, hs, hend, base_kept (fileOf 1) cleared repeatedAck (by decide +kernel)⟩

set_option maxRecDepth 8000 in
open Zlib.Standard in
/-- **An ACK that comes late takes the base back**: packets 0 and 1 are removed, the first of the
stack is packet 2, and `lastSeqnumAcked` is 1 behind the late ACK. -/
theorem base_lost : ¬ Along step BaseKept (Sys.start (fileOf 1) cleared)
    (overtaking ++ [.reply 0 cleared]) := by
  intro h
  have hrun : ((exec step (Sys.start (fileOf 1) cleared) overtaking).bind fun s1 =>
      (step s1 (.reply 0 cleared)).map fun s2 =>
        (s2.sender.lastSeqnumAcked, s2.sender.sendingStack.head?.map Node.seqnum)) =
      some (1, some 2) := by
    decide +kernel
  obtain ⟨s1, s2, hkept, hread⟩ := h.at_of_read hrun
  obtain ⟨hlast, hhead⟩ := Prod.ext_iff.mp hread
  obtain ⟨first, hfirst, hseq⟩ := Option.map_eq_some_iff.mp hhead
  have hbase := (hkept.base_eq first hfirst).1
  have hne : (1 : UInt8) ≠ 2 := by decide
  exact hne (hlast.symm.trans (hbase.trans hseq))

end Trtp
