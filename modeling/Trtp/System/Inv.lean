import Trtp.Lib.Run
import Trtp.Lib.Window
import Trtp.Sender.Inv
import Trtp.System.Step

/-!
# What ties sender and receiver together (`read_write_loop_sender.c:223-308`)

The joint invariant `Inv chunks S s`, with `S` the packets the receiver accepted: the sender's
stack is the packets from `acked` on, the receiver is what `S` makes it (`Received`), the frames in
flight are packets of the file that the sender has marked as sent, in time for the receiver's
window (`InFlight`), and every reply carries the number of the packet that was missing when it was
sent. Replies may come in any order, so `lastSeqnumAcked` may be an old number; `InFlight` says how
old.

* `Received.turn`: **one frame is one `absorb`**, the terminating packet included.
* `Inv.ack`: an ACK that is not late, or that changes nothing, keeps the two windows together.
* `removed_delivered`: **as long as no late ACK is let through, only delivered packets leave the
  stack**, and an empty stack means that the whole file was written.
* `late_ack_removes`: a late ACK with the number of the total.
-/

namespace Trtp

open Trtp.Run Trtp.Reassembly

/-! ## The receiver's turn -/

variable {chunks : List Chunk} {S : Finset ℕ} {r : Receiver} {j : ℕ}

/-- The receiver accepted the packets of `S`: it is in its loop, or has left it with all packets
of the file. -/
inductive Received (chunks : List Chunk) (S : Finset ℕ) (r : Receiver) : Prop
  | inLoop (represents : Represents (contents chunks) S r)
  | left (closed : r.closed = true) (all : next S = chunks.length + 1)
      (expected : r.expectedSeqnum = UInt8.ofNat (chunks.length + 1))
      (output : r.output = (List.range chunks.length).map (contents chunks))
      (empty : r.receivingStack = [])

theorem Received.delivered_eq (h : Received chunks S r) : r.delivered = next S := by
  cases h with
  | inLoop hrep => rw [Receiver.delivered, hrep.length_output, hrep.open_eq]; rfl
  | left hclosed hall hexp hout hempty =>
    rw [Receiver.delivered, hout, List.length_map, List.length_range, hclosed, hall]
    rfl

theorem Received.expected_eq (h : Received chunks S r) :
    r.expectedSeqnum = UInt8.ofNat r.delivered := by
  rw [h.delivered_eq]
  cases h with
  | inLoop hrep => exact hrep.expected_eq
  | left hclosed hall hexp hout hempty => rw [hexp, hall]

theorem Received.represents (h : Received chunks S r) (hopen : r.closed = false) :
    Represents (contents chunks) S r := by
  cases h with
  | inLoop hrep => exact hrep
  | left hclosed hall hexp hout hempty =>
    rw [hopen] at hclosed
    exact absurd hclosed (by simp)

/-- What was written are the payloads of the delivered packets. -/
theorem Received.flatten_output (h : Received chunks S r) :
    r.output.flatten = ((List.range r.delivered).map (contents chunks)).flatten := by
  rw [h.delivered_eq]
  cases h with
  | inLoop hrep => rw [hrep.output_eq]
  | left hclosed hall hexp hout hempty =>
    rw [hout, hall, flatten_contents _ (le_refl _), flatten_contents _ (by omega)]

theorem Received.window_pos (h : Represents (contents chunks) S r) :
    r.window ≠ 0 ∧ r.window.toNat ≤ 31 := by
  have hlen := h.length_le
  have hwin := h.toNat_window
  refine ⟨fun h0 => ?_, by omega⟩
  rw [h0, UInt8.toNat_zero] at hwin
  omega

section Turn

variable [Zlib]

/-- A reply with the number of packet `k`, and a window that is not 0. -/
def IsReply (type : PType) (k : ℕ) (datagram : List UInt8) : Prop :=
  ∃ window ts, window ≠ 0 ∧ window.toNat ≤ 31 ∧
    datagram = wire (replyPkt window type ts (UInt8.ofNat k))

/-- **One frame is one `absorb`.** The replies are ACKs with the number that is expected then. -/
theorem Received.turn {pkt : Pkt} (h : Represents (contents chunks) S r)
    (hp : IsData (contents chunks) j pkt) (hS : ∀ i ∈ S, i ≤ chunks.length)
    (hj : j ≤ chunks.length) (hlate : next S ≤ j + 225) (hearly : j ≤ next S + 255)
    (dangling : Pkt) :
    Received chunks (absorb 31 S j) (receive dangling r (wire pkt)).1 ∧
      ∀ reply ∈ (receive dangling r (wire pkt)).2,
        IsReply .ack (receive dangling r (wire pkt)).1.delivered reply := by
  by_cases hterm : contents chunks j = [] ∧ r.expectedSeqnum = UInt8.ofNat j
  · -- the terminating packet, in order
    obtain ⟨hnil, hexp⟩ := hterm
    have hend : j = chunks.length := le_antisymm hj (contents_eq_nil.mp hnil)
    have hnext : next S = j := by
      rw [h.expected_eq] at hexp
      exact ofNat_inj_of_near hexp (by omega) (by omega)
    have hall : next (absorb 31 S j) = chunks.length + 1 := by
      rw [absorb, if_pos ⟨hnext.le, by omega⟩]
      refine next_eq (fun i hi => ?_) fun hm => ?_
      · rw [Finset.mem_insert]
        rcases Nat.lt_succ_iff_lt_or_eq.mp hi with hi | rfl
        · exact Or.inr (mem_of_lt_next (by omega))
        · exact Or.inl hend.symm
      · rcases Finset.mem_insert.mp hm with hm | hm
        · omega
        · have := hS _ hm
          omega
    have hleft : Received chunks (absorb 31 S j)
        { r with expectedSeqnum := UInt8.ofNat (j + 1), closed := true } := by
      refine Received.left rfl hall (by rw [hend]) ?_ ?_
      · rw [← hend, ← hnext]
        exact h.output_eq
      · -- nothing lies behind the terminating packet
        have hlen : r.receivingStack.length ≤ next S + 1 - next S - 1 :=
          h.buffers.length_le fun i hi => by
            have := hS i hi.1
            omega
        rw [Nat.add_sub_cancel_left, Nat.sub_self] at hlen
        exact List.eq_nil_of_length_eq_zero (Nat.le_zero.mp hlen)
    rw [receive_terminating hp hnil hexp]
    refine ⟨hleft, fun reply hreply => ?_⟩
    rw [hleft.delivered_eq, hall, ← hend]
    exact ⟨r.window, pkt.timestamp, (window_pos h).1, (window_pos h).2,
      List.eq_of_mem_replicate hreply⟩
  · rw [receive_data hp (not_and_or.mp hterm)]
    obtain ⟨hrep, hans⟩ := accept_represents h hp.received pkt.timestamp hlate hearly
    have hrec := Received.inLoop hrep
    refine ⟨hrec, fun reply hreply => ?_⟩
    rcases hans with ⟨-, -, hnone⟩ | ⟨ts, hone⟩
    · rw [hnone] at hreply
      exact absurd hreply List.not_mem_nil
    · rw [hone, List.mem_singleton, hrec.expected_eq] at hreply
      exact ⟨_, ts, (window_pos hrep).1, (window_pos hrep).2, hreply⟩

/-! ## The joint invariant -/

/-- The packets in flight. -/
def Sys.inFlight (s : Sys) : List ℕ := s.data.map Prod.fst

/-- Sender, receiver and the datagrams in flight, against the set of the accepted packets. -/
structure Inv (chunks : List Chunk) (S : Finset ℕ) (s : Sys) : Prop where
  total_eq : s.total = chunks.length + 1
  holds : Holds (contents chunks) s.total s.acked s.sender.sendingStack
  received : Received chunks S s.receiver
  line : InFlight 31 256 s.total s.acked
    (offset (UInt8.ofNat s.acked) s.sender.lastSeqnumAcked) S s.inFlight
  lt_total : ∀ i, i ∈ S ∨ i ∈ s.inFlight → i < s.total
  sent : ∀ i, i ∈ S ∨ i ∈ s.inFlight → s.acked ≤ i →
    SentAt s.sender.sendingStack (i - s.acked)
  frames : ∀ frame ∈ s.data, ∃ pkt, IsData (contents chunks) frame.1 pkt ∧ frame.2 = wire pkt
  replies : ∀ frame ∈ s.replies, frame.1 ≤ s.receiver.delivered ∧
    (IsReply .ack frame.1 frame.2 ∨ IsReply .nack frame.1 frame.2)

variable {s s' : Sys}

theorem inv_start (chunks : List Chunk) (buf : Buffer) :
    Inv chunks ∅ (Sys.start chunks buf) := by
  obtain ⟨hholds, -⟩ := readFile_holds chunks
  have hacked := acked_start chunks buf
  refine ⟨rfl, ?_, Received.inLoop (represents_start _), ?_, ?_, ?_, ?_, ?_⟩
  · rw [hacked, start_sender]
    exact hholds
  · rw [hacked, start_sender]
    change InFlight 31 256 _ 0 (offset (UInt8.ofNat 0) (UInt8.ofNat 0)) ∅ []
    rw [offset_self]
    exact inFlight_start 31 256 _
  · rintro i (hi | hi)
    · exact absurd hi (Finset.notMem_empty i)
    · exact absurd hi List.not_mem_nil
  · rintro i (hi | hi)
    · exact absurd hi (Finset.notMem_empty i)
    · exact absurd hi List.not_mem_nil
  · exact fun frame hf => absurd hf List.not_mem_nil
  · exact fun frame hf => absurd hf List.not_mem_nil

theorem Inv.next_le_total (h : Inv chunks S s) : next S ≤ s.total :=
  next_le fun hm => absurd (h.lt_total _ (Or.inl hm)) (lt_irrefl _)

theorem Inv.acked_le (h : Inv chunks S s) : s.acked ≤ s.receiver.delivered := by
  rw [h.received.delivered_eq]
  exact h.line.acked_le

/-- The network loses or repeats datagrams, or the sender takes one out. -/
theorem Inv.network {data replies : List (ℕ × List UInt8)} (h : Inv chunks S s)
    (hdata : ∀ frame ∈ data, frame ∈ s.data) (hreplies : ∀ frame ∈ replies, frame ∈ s.replies)
    (hline : InFlight 31 256 s.total s.acked
      (offset (UInt8.ofNat s.acked) s.sender.lastSeqnumAcked) S (data.map Prod.fst)) :
    Inv chunks S { s with data := data, replies := replies } := by
  have hsub : ∀ i, i ∈ S ∨ i ∈ data.map Prod.fst → i ∈ S ∨ i ∈ s.inFlight := by
    rintro i (hi | hi)
    · exact Or.inl hi
    · obtain ⟨frame, hf, rfl⟩ := List.mem_map.mp hi
      exact Or.inr (List.mem_map_of_mem (hdata frame hf))
  exact ⟨h.total_eq, h.holds, h.received, hline, fun i hi => h.lt_total i (hsub i hi),
    fun i hi => h.sent i (hsub i hi), fun frame hf => h.frames frame (hdata frame hf),
    fun frame hf => h.replies frame (hreplies frame hf)⟩

theorem Inv.loseReplies {replies : List (ℕ × List UInt8)} (h : Inv chunks S s)
    (hreplies : ∀ frame ∈ replies, frame ∈ s.replies) :
    Inv chunks S { s with replies := replies } :=
  h.network (fun _ hf => hf) hreplies h.line

theorem Inv.loseData (h : Inv chunks S s) (i : ℕ) :
    Inv chunks S { s with data := s.data.eraseIdx i } :=
  h.network (fun _ hf => (List.eraseIdx_sublist s.data i).subset hf) (fun _ hf => hf)
    (h.line.sub ((List.eraseIdx_sublist s.data i).map _))

theorem Inv.dupData (h : Inv chunks S s) (i : ℕ) :
    Inv chunks S { s with data := duplicate s.data i } := by
  refine h.network (fun _ hf => mem_duplicate.mp hf) (fun _ hf => hf) ?_
  have hline := h.line
  rcases duplicate_eq s.data i with hsame | ⟨pre, frame, post, hdata, hdup⟩
  · rw [hsame]
    exact hline
  · rw [Sys.inFlight, hdata, List.map_append, List.map_cons] at hline
    rw [hdup, List.map_append, List.map_cons, List.map_cons]
    exact hline.dup

/-- The sender changes what the invariant does not look at. -/
theorem Inv.sender {t : Sender} (h : Inv chunks S s)
    (hstack : t.sendingStack = s.sender.sendingStack)
    (hlast : t.lastSeqnumAcked = s.sender.lastSeqnumAcked) :
    Inv chunks S { s with sender := t } := by
  have hacked : Sys.acked { s with sender := t } = s.acked := acked_congr rfl hstack
  refine ⟨h.total_eq, ?_, h.received, ?_, h.lt_total, ?_, h.frames, h.replies⟩
  · rw [hacked, hstack]
    exact h.holds
  · rw [hacked, hlast]
    exact h.line
  · rw [hacked, hstack]
    exact h.sent

/-- **A transmission keeps it.** What goes out is the packet `toSend`. -/
theorem Inv.transmit {now : UInt32} (h : Inv chunks S s)
    (hs : step s (.transmit now) = some s') : Inv chunks S s' ∧ s'.acked = s.acked := by
  obtain ⟨-, hnow, rfl⟩ := step_transmit hs
  rcases transmit_cases now s.sender with hnone | ⟨pkt, hmay, hget, hsent⟩
  · rw [hnone]
    simp only [Option.toList_none, List.map_nil, List.append_nil]
    exact ⟨h.sender rfl rfl, rfl⟩
  obtain ⟨node, hnode, -, -⟩ := h.holds.get hget
  obtain ⟨hlt, -⟩ := List.getElem?_eq_some_iff.mp hnode
  obtain ⟨hdata, hseg, hholds, hlen, hsentAt⟩ := sendNext_sent h.holds hnow hget
  have hsum := h.holds.length_eq
  have hacked : s.total - (sendNext now s.sender pkt).1.sendingStack.length = s.acked := by
    rw [hlen]
    rfl
  have hline := h.line.send (by omega) (by omega) (offset_lt _ _) (offset_lt _ _)
    ((inWindow_iff _ _).mp hmay.inRange) (offset_trans _ _ _)
  have htags : ∀ i, i ∈ S ∨ i ∈ s.inFlight ++ [s.toSend] →
      (i ∈ S ∨ i ∈ s.inFlight) ∨ i = s.toSend := by
    intro i hi
    rcases hi with hi | hi
    · exact Or.inl (Or.inl hi)
    · rcases List.mem_append.mp hi with hi | hi
      · exact Or.inl (Or.inr hi)
      · exact Or.inr (List.mem_singleton.mp hi)
  have hflight : (s.data ++ [(s.toSend, wire (stampPkt now pkt))]).map Prod.fst =
      s.inFlight ++ [s.toSend] := List.map_append
  rw [hsent, hseg]
  simp only [Option.toList_some, List.map_cons, List.map_nil]
  refine ⟨⟨h.total_eq, ?_, h.received, ?_, ?_, ?_, ?_, h.replies⟩, hacked⟩
  · rw [Sys.acked, hacked]
    exact hholds
  · rw [Sys.acked, hacked, Sys.inFlight, hflight]
    simp only [sendNext_lastSeqnumAcked]
    exact hline
  · rw [Sys.inFlight, hflight]
    intro i hi
    rcases htags i hi with hi | rfl
    · exact h.lt_total i hi
    · change s.acked + offset _ _ < s.total
      omega
  · rw [Sys.acked, hacked, Sys.inFlight, hflight]
    intro i hi hle
    rw [hsentAt]
    rcases htags i hi with hi | rfl
    · exact Or.inr (h.sent i hi hle)
    · exact Or.inl (Nat.add_sub_cancel_left _ _)
  · intro frame hf
    rcases List.mem_append.mp hf with hf | hf
    · exact h.frames frame hf
    · rw [List.mem_singleton] at hf
      exact ⟨stampPkt now pkt, by rw [hf]; exact hdata, by rw [hf]⟩

/-! ## Replies -/

/-- An ACK for packet `k`: it is not late, or it changes nothing. -/
structure AckStep (s : Sys) (k m : ℕ) : Prop where
  removed : removeAcked s.sender.totalPacketsToSend s.sender.sendingStack (UInt8.ofNat k) =
    s.sender.sendingStack.drop m
  le_length : m ≤ s.sender.sendingStack.length
  accepted : m = 0 ∨
    acceptsAck s.sender.totalPacketsToSend s.sender.sendingStack (UInt8.ofNat k)
  fresh : s.acked ≤ k → s.acked + m = k

/-- **An ACK that is not late removes what it says**; one that is late must be refused, or carry
the number of the first packet. -/
theorem Inv.ack {k : ℕ} (h : Inv chunks S s) (hk : k ≤ s.receiver.delivered)
    (hlate : k < s.acked → UInt8.ofNat k = UInt8.ofNat s.acked ∨
      ¬ acceptsAck s.sender.totalPacketsToSend s.sender.sendingStack (UInt8.ofNat k)) :
    ∃ m, AckStep s k m ∧
      InFlight 31 256 s.total (s.acked + m)
        (offset (UInt8.ofNat (s.acked + m)) (UInt8.ofNat k)) S s.inFlight := by
  rw [h.received.delivered_eq] at hk
  have hsum := h.holds.length_eq
  have htotal := h.next_le_total
  have hahead := h.line.ahead
  have hle := next_mono (subset_absorbAll (W := 31) S s.inFlight)
  obtain ⟨m, hm, hdrop, -, hnone, hmin⟩ :=
    h.holds.removeAcked s.sender.totalPacketsToSend (UInt8.ofNat k)
  have hiff := acceptsAck_iff h.holds s.sender.totalPacketsToSend (UInt8.ofNat k)
  have hzero : UInt8.ofNat k = UInt8.ofNat s.acked → m = 0 := by
    intro heq
    rcases hnone with h0 | hacc
    · exact h0
    · have := hmin hacc
      rw [heq, offset_self] at this
      omega
  by_cases hfresh : s.acked ≤ k
  · have hoff := offset_ofNat_of_le hfresh (by omega)
    have hkm : s.acked + m = k := by
      rcases Nat.eq_or_lt_of_le hfresh with heq | hlt
      · rw [hzero (by rw [heq]), heq, Nat.add_zero]
      · -- the packet in front of `k` was delivered, so it was sent
        have hsent := h.sent (k - 1) (Or.inl (mem_of_lt_next (by omega))) (by omega)
        rw [offset_pred (by omega), hoff, Nat.sub_right_comm] at hiff
        have := hmin (hiff.mpr (Or.inr hsent))
        omega
    refine ⟨m, ⟨hdrop, hm, hnone, fun _ => hkm⟩, ?_⟩
    rw [hkm, offset_self]
    exact h.line.advance hfresh hk
  · have hm0 : m = 0 := by
      rcases hlate (by omega) with heq | hacc
      · exact hzero heq
      · exact hnone.resolve_right hacc
    subst hm0
    refine ⟨0, ⟨hdrop, hm, hnone, fun hc => absurd hc hfresh⟩, h.line.rebase fun _ => ?_⟩
    rw [Nat.add_zero]
    by_cases h0 : offset (UInt8.ofNat s.acked) (UInt8.ofNat k) = 0
    · exact Or.inl h0
    · -- refused: the packet in front of the old number, read in the stack, was not sent
      refine Or.inr ?_
      by_contra hfar
      have hacc := (hlate (by omega)).resolve_left fun heq => h0 (offset_eq_zero.mpr heq)
      refine hacc (hiff.mpr (Or.inr ?_))
      rw [offset_pred h0]
      have hsent := h.sent _ (mem_absorbAll (mem_of_lt_next
        (by omega : s.acked + (offset (UInt8.ofNat s.acked) (UInt8.ofNat k) - 1) <
          next (absorbAll 31 S s.inFlight)))) (by omega)
      rwa [Nat.add_sub_cancel_left] at hsent

/-- The sender behind such an ACK. -/
theorem Inv.acknowledged {k m : ℕ} {t : Sender} (h : Inv chunks S s) (hstep : AckStep s k m)
    (hline : InFlight 31 256 s.total (s.acked + m)
      (offset (UInt8.ofNat (s.acked + m)) (UInt8.ofNat k)) S s.inFlight)
    (hstack : t.sendingStack =
      removeAcked s.sender.totalPacketsToSend s.sender.sendingStack (UInt8.ofNat k))
    (hlast : t.lastSeqnumAcked = UInt8.ofNat k) :
    Inv chunks S { s with sender := t } ∧ Sys.acked { s with sender := t } = s.acked + m := by
  have hsum := h.holds.length_eq
  have hle := hstep.le_length
  rw [hstep.removed] at hstack
  have hacked : Sys.acked { s with sender := t } = s.acked + m := by
    rw [Sys.acked, hstack, List.length_drop]
    change s.total - _ = s.acked + m
    omega
  refine ⟨⟨h.total_eq, ?_, h.received, ?_, h.lt_total, ?_, h.frames, h.replies⟩, hacked⟩
  · rw [hacked, hstack]
    exact h.holds.drop hle
  · rw [hacked, hlast]
    exact hline
  · rw [hacked, hstack]
    intro i hi hmi
    rw [sentAt_drop, show m + (i - (s.acked + m)) = i - s.acked by omega]
    exact h.sent i hi (by omega)

/-- A late ACK is refused, or carries the number of the first packet. -/
def LateRefused (s : Sys) : Event → Prop
  | .reply i junk => ∀ frame ∈ s.replies[i]?, frame.1 < s.acked →
      (replyOf junk frame.2).2.type = .ack →
        (replyOf junk frame.2).2.seqnum = UInt8.ofNat s.acked ∨
          ¬ acceptsAck s.sender.totalPacketsToSend s.sender.sendingStack
            (replyOf junk frame.2).2.seqnum
  | _ => True

instance (s : Sys) : (e : Event) → Decidable (LateRefused s e)
  | .reply i junk => inferInstanceAs (Decidable (∀ frame ∈ s.replies[i]?, frame.1 < s.acked →
      (replyOf junk frame.2).2.type = .ack → _))
  | .transmit _ | .damagedReply _ _ _ | .idle _ | .deliver _ | .damagedData _ _ | .loseData _
  | .dupData _ | .loseReply _ | .dupReply _ => isTrue trivial

/-- **A reply keeps it**, and one that is not late takes the sender no further than its number. -/
theorem Inv.reply {i : ℕ} {junk : Buffer} (h : Inv chunks S s)
    (hlate : LateRefused s (.reply i junk)) (hs : step s (.reply i junk) = some s') :
    Inv chunks S s' ∧ ∃ frame, s.replies[i]? = some frame ∧ s.acked ≤ s'.acked ∧
      (s.acked ≤ frame.1 → s'.acked ≤ frame.1) := by
  obtain ⟨frame, hframe, -, rfl⟩ := step_reply hs
  obtain ⟨hk, hrep⟩ := h.replies frame (List.mem_of_getElem? hframe)
  have hrest : ∀ f ∈ s.replies.eraseIdx i, f ∈ s.replies :=
    fun f hf => (List.eraseIdx_sublist s.replies i).subset hf
  rcases hrep with ⟨window, ts, -, h31, hwire⟩ | ⟨window, ts, -, h31, hwire⟩
  · obtain ⟨packet, hdec, htype, hseq, -⟩ := replyOf_wire junk .ack window ts
      (UInt8.ofNat frame.1) (by decide)
    have hcond := fun hlt => hlate frame hframe hlt (by rw [hwire, hdec]; exact htype)
    rw [hwire, hdec] at hcond
    simp only [hseq] at hcond
    obtain ⟨m, hstep, hline⟩ := h.ack hk hcond
    obtain ⟨t, counter, mainBreak, hresp, ht⟩ :=
      respond_ack s.sender junk ts (UInt8.ofNat frame.1) h31
    obtain ⟨pc, hpc⟩ := endIteration_eq t mainBreak
    rw [hwire, hresp, hpc]
    obtain ⟨hinv, hacked⟩ := h.acknowledged (t := { t with pc := pc }) hstep hline
      (by rcases ht with rfl | ⟨-, rfl⟩ <;> rfl) (by rcases ht with rfl | ⟨-, rfl⟩ <;> rfl)
    refine ⟨hinv.loseReplies hrest, frame, hframe, ?_, fun hle => ?_⟩
    · exact (Nat.le_add_right _ m).trans hacked.ge
    · exact hacked.le.trans (hstep.fresh hle).le
  · obtain ⟨mainBreak, hresp⟩ := respond_nack s.sender junk ts (UInt8.ofNat frame.1) h31
    obtain ⟨pc, hpc⟩ := endIteration_eq { s.sender with
      receiverWindowSize := window
      seqnumToSend := UInt8.ofNat frame.1
      hasNACKed := true } mainBreak
    rw [hwire, hresp, hpc]
    have hinv := h.sender (t := { s.sender with
      receiverWindowSize := window
      seqnumToSend := UInt8.ofNat frame.1
      hasNACKed := true
      pc := pc }) rfl rfl
    exact ⟨hinv.loseReplies hrest, frame, hframe, le_refl s.acked, fun hle => hle⟩

theorem Inv.damagedReply {i : ℕ} {datagram : List UInt8} {junk : Buffer} (h : Inv chunks S s)
    (hs : step s (.damagedReply i datagram junk) = some s') : Inv chunks S s' := by
  obtain ⟨-, hrej, rfl⟩ := step_damagedReply hs
  obtain ⟨pc, hpc⟩ := endIteration_eq s.sender false
  rw [respond_rejected hrej, hpc]
  exact (h.sender (t := { s.sender with pc := pc }) rfl rfl).loseReplies
    fun f hf => (List.eraseIdx_sublist s.replies i).subset hf

theorem Inv.idle {clock : ℕ → ℤ} (h : Inv chunks S s) (hs : step s (.idle clock) = some s') :
    Inv chunks S s' := by
  obtain ⟨-, rfl⟩ := step_idle hs
  obtain ⟨hstack, hlast⟩ := wakeUp_keeps clock s.sender
  exact h.sender hstack hlast

/-! ## The receiver's side -/

/-- The frame at the head of the line is in time for the receiver's window. -/
theorem Inv.head {frame : ℕ × List UInt8} {rest : List (ℕ × List UInt8)} (h : Inv chunks S s)
    (hd : s.data = frame :: rest) :
    ∃ pkt, IsData (contents chunks) frame.1 pkt ∧ frame.2 = wire pkt ∧
      frame.1 < s.total ∧ next S ≤ frame.1 + 61 ∧ frame.1 ≤ next S + 255 := by
  have hin : frame.1 ∈ s.inFlight := by
    rw [Sys.inFlight, hd]
    exact List.mem_cons_self
  obtain ⟨pkt, hdata, hwire⟩ := h.frames frame (hd ▸ List.mem_cons_self)
  have hline := h.line
  have hle := hline.acked_le
  have hearly := hline.early frame.1 hin
  rw [Sys.inFlight, hd, List.map_cons] at hline
  exact ⟨pkt, hdata, hwire, h.lt_total _ (Or.inr hin), hline.timely.1, by omega⟩

/-- **A frame that arrives is absorbed.** -/
theorem Inv.deliver {dangling : Pkt} (h : Inv chunks S s)
    (hs : step s (.deliver dangling) = some s') :
    ∃ frame rest, s.data = frame :: rest ∧ Inv chunks (absorb 31 S frame.1) s' ∧
      s'.sender = s.sender := by
  obtain ⟨frame, rest, hd, hopen, rfl⟩ := step_deliver hs
  refine ⟨frame, rest, hd, ?_, rfl⟩
  obtain ⟨pkt, hdata, hwire, hlt, hlate, hearly⟩ := h.head hd
  have hlt' := h.total_eq ▸ hlt
  have hS : ∀ i ∈ S, i ≤ chunks.length := fun i hi => by
    have := h.total_eq ▸ h.lt_total i (Or.inl hi)
    omega
  obtain ⟨hrec, hreplies⟩ := Received.turn (h.received.represents hopen) hdata hS (by omega)
    (by omega) hearly dangling
  have hmono := next_le_next_absorb (W := 31) S frame.1
  have htags : ∀ i, i ∈ absorb 31 S frame.1 ∨ i ∈ rest.map Prod.fst →
      i ∈ S ∨ i ∈ s.inFlight := by
    rw [Sys.inFlight, hd, List.map_cons]
    rintro i (hi | hi)
    · rcases mem_absorb hi with hi | rfl
      · exact Or.inl hi
      · exact Or.inr List.mem_cons_self
    · exact Or.inr (List.mem_cons_of_mem _ hi)
  have hline := h.line
  rw [Sys.inFlight, hd, List.map_cons] at hline
  rw [← hwire] at hrec hreplies
  refine ⟨h.total_eq, h.holds, hrec, hline.arrive, fun i hi => h.lt_total i (htags i hi),
    fun i hi => h.sent i (htags i hi),
    fun f hf => h.frames f (hd ▸ List.mem_cons_of_mem frame hf), fun f hf => ?_⟩
  rcases List.mem_append.mp hf with hf | hf
  · obtain ⟨hk, hrep⟩ := h.replies f hf
    rw [h.received.delivered_eq] at hk
    exact ⟨hk.trans (hmono.trans hrec.delivered_eq.ge), hrep⟩
  · obtain ⟨reply, hreply, rfl⟩ := List.mem_map.mp hf
    exact ⟨le_refl _, Or.inl (hreplies reply hreply)⟩

/-- A damaged frame is answered and lost. -/
theorem Inv.damagedData {dangling : Pkt} {datagram : List UInt8} (h : Inv chunks S s)
    (hs : step s (.damagedData dangling datagram) = some s') :
    ∃ frame rest reply, s.data = frame :: rest ∧ s.receiver.closed = false ∧
      Inv chunks S s' ∧ IsReply .nack s.receiver.delivered reply ∧
      s' = { s with
        data := rest, replies := s.replies ++ [(s.receiver.delivered, reply)] } := by
  obtain ⟨frame, rest, hd, hopen, hrej, rfl⟩ := step_damagedData hs
  obtain ⟨ts, hrec⟩ := receive_of_rejected hrej dangling s.receiver
  have hrep := h.received.represents hopen
  have hreply : IsReply .nack s.receiver.delivered
      (wire (replyPkt s.receiver.window .nack ts s.receiver.expectedSeqnum)) := by
    rw [h.received.expected_eq]
    exact ⟨_, ts, (Received.window_pos hrep).1, (Received.window_pos hrep).2, rfl⟩
  refine ⟨frame, rest, _, hd, hopen, ?_, hreply, ?_⟩
  · have hline := h.line
    rw [Sys.inFlight, hd, List.map_cons] at hline
    have hlost : Inv chunks S { s with data := rest } :=
      h.network (fun f hf => hd ▸ List.mem_cons_of_mem frame hf) (fun _ hf => hf)
        (hline.sub (List.sublist_cons_self _ _))
    unfold Sys.turn
    rw [hrec]
    refine ⟨hlost.total_eq, hlost.holds, hlost.received, hlost.line, hlost.lt_total, hlost.sent,
      hlost.frames, fun f hf => ?_⟩
    rcases List.mem_append.mp hf with hf | hf
    · exact hlost.replies f hf
    · rw [List.map_singleton, List.mem_singleton] at hf
      rw [hf]
      exact ⟨le_refl _, Or.inr hreply⟩
  · unfold Sys.turn
    rw [hrec]
    rfl

/-! ## Runs -/

/-- **The step**, one case for each event. -/
theorem inv_step {e : Event} (h : Inv chunks S s) (hlate : LateRefused s e)
    (hs : step s e = some s') : ∃ S', Inv chunks S' s' := by
  cases e with
  | transmit now => exact ⟨S, (h.transmit hs).1⟩
  | reply i junk => exact ⟨S, (h.reply hlate hs).1⟩
  | damagedReply i datagram junk => exact ⟨S, h.damagedReply hs⟩
  | idle clock => exact ⟨S, h.idle hs⟩
  | deliver dangling =>
    obtain ⟨frame, -, -, hinv, -⟩ := h.deliver hs
    exact ⟨_, hinv⟩
  | damagedData dangling datagram =>
    obtain ⟨-, -, -, -, -, hinv, -, -⟩ := h.damagedData hs
    exact ⟨S, hinv⟩
  | loseData i => exact ⟨S, Option.some.inj hs ▸ h.loseData i⟩
  | dupData i => exact ⟨S, Option.some.inj hs ▸ h.dupData i⟩
  | loseReply i =>
    exact ⟨S, Option.some.inj hs ▸ h.loseReplies
      fun f hf => (List.eraseIdx_sublist s.replies i).subset hf⟩
  | dupReply i => exact ⟨S, Option.some.inj hs ▸ h.loseReplies fun f hf => mem_duplicate.mp hf⟩

/-- The stack lacks delivered packets only, and what was written are their payloads. -/
structure Safe (chunks : List Chunk) (s : Sys) : Prop where
  holds : Holds (contents chunks) (chunks.length + 1) s.acked s.sender.sendingStack
  acked_le : s.acked ≤ s.receiver.delivered
  expected_eq : s.receiver.expectedSeqnum = UInt8.ofNat s.receiver.delivered
  written : s.receiver.output.flatten =
    ((List.range s.receiver.delivered).map (contents chunks)).flatten
  complete : s.sender.sendingStack = [] →
    s.receiver.output.flatten = (chunks.map Subtype.val).flatten

theorem Inv.safe (h : Inv chunks S s) : Safe chunks s := by
  have hle := h.acked_le
  have hsum := h.holds.length_eq
  have htotal := h.total_eq
  refine ⟨htotal ▸ h.holds, hle, h.received.expected_eq, h.received.flatten_output, fun hnil => ?_⟩
  rw [hnil, List.length_nil] at hsum
  rw [h.received.flatten_output, flatten_contents chunks (by omega)]

/-- **No late ACK destroys data**, in every run whose late ACKs are all refused or carry the number
of the first packet. -/
theorem removed_delivered (chunks : List Chunk) (buf : Buffer) (es : List Event)
    (h : Along step (fun s e _ => LateRefused s e) (Sys.start chunks buf) es) :
    Along step (fun _ _ s' => Safe chunks s') (Sys.start chunks buf) es := by
  refine Along.of_inv (I := fun s => ∃ S, Inv chunks S s) ?_ ?_ ⟨∅, inv_start chunks buf⟩ h
  · rintro s e s' ⟨S, hinv⟩ hlate hs
    exact inv_step hinv hlate hs
  · rintro s e s' ⟨S, hinv⟩ hlate hs
    obtain ⟨S', hinv'⟩ := inv_step hinv hlate hs
    exact hinv'.safe

end Turn

set_option maxRecDepth 8000 in
open Zlib.Standard in
/-- A late ACK that is refused: two packets are removed and delivered before it and behind it. -/
theorem removed_delivered_refused :
    ∃ s, exec step (Sys.start (fileOf 1) cleared) (overtaking ++ [.reply 0 cleared]) = some s ∧
      (s.acked, s.receiver.delivered) = (2, 2) ∧
      Along step (fun _ _ s' => Safe (fileOf 1) s') (Sys.start (fileOf 1) cleared)
        (overtaking ++ [.reply 0 cleared]) := by
  have hread : (exec step (Sys.start (fileOf 1) cleared) (overtaking ++ [.reply 0 cleared])).map
      (fun s => (s.acked, s.receiver.delivered)) = some (2, 2) := by
    decide +kernel
  obtain ⟨s, hs, hend⟩ := Option.map_eq_some_iff.mp hread
  exact ⟨s, hs, hend, removed_delivered (fileOf 1) cleared _ (by decide +kernel)⟩

set_option maxRecDepth 8000 in
open Zlib.Standard in
/-- **A late ACK with the number of the total empties the stack**: of 257 packets, the receiver
has two. -/
theorem late_ack_removes : ¬ Along step (fun _ _ s' => Safe (fileOf 255) s')
    (Sys.start (fileOf 255) cleared) (overtaking ++ [.reply 0 cleared]) := by
  intro h
  have hrun : ((exec step (Sys.start (fileOf 255) cleared) overtaking).bind fun s1 =>
      (step s1 (.reply 0 cleared)).map fun s2 => (s2.acked, s2.receiver.delivered)) =
      some (257, 2) := by
    decide +kernel
  obtain ⟨s1, s2, hsafe, hread⟩ := h.at_of_read hrun
  obtain ⟨hacked, hdelivered⟩ := Prod.ext_iff.mp hread
  have hle := hsafe.acked_le
  simp only at hacked hdelivered
  omega

end Trtp
